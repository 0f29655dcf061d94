import Mathlib.Data.Int.Notation
import Mathlib.Data.List.Basic

/-!
# Shared vocabulary

Instants, error specifications, and the pieces of JavaScript and Prisma that the contexts share.

Identifiers (`cuid()`, `randomUUID()`) are opaque: the code only compares them, and they are modelled
by numbers.
-/

namespace EstateServer

/-- An instant (`Date`), in milliseconds. -/
abbrev Instant := ℕ

/-- `AppErrorSpec`: an entry of an error catalogue. -/
structure AppErrorSpec where
  code : String
  status : ℕ
  message : String
  deriving DecidableEq, Repr

namespace Js

/-- The characters that `String.prototype.trim` removes (WhiteSpace and LineTerminator). -/
def isSpace (c : Char) : Bool :=
  c.toNat ∈ [0x09, 0x0A, 0x0B, 0x0C, 0x0D, 0x20, 0xA0, 0x1680, 0x2028, 0x2029, 0x202F, 0x205F,
    0x3000, 0xFEFF] || (0x2000 ≤ c.toNat && c.toNat ≤ 0x200A)

/-- `String.prototype.trim`. -/
def trim (s : String) : String :=
  String.ofList (((s.toList.dropWhile isSpace).reverse.dropWhile isSpace).reverse)

/-- A JavaScript string, as its UTF-16 code units. -/
abbrev Text := List UInt16

/-- The code units of a text. -/
def Text.of (s : String) : Text :=
  s.toList.flatMap fun c =>
    if c.toNat < 0x10000 then [c.toNat.toUInt16]
    else
      let rest := c.toNat - 0x10000
      [(0xD800 + rest / 0x400).toUInt16, (0xDC00 + rest % 0x400).toUInt16]

/-- `String.prototype.slice(0, n)`. -/
def Text.slice (s : Text) (n : ℕ) : Text := s.take n

def isHighSurrogate (c : UInt16) : Bool := 0xD800 ≤ c && c < 0xDC00

def isLowSurrogate (c : UInt16) : Bool := 0xDC00 ≤ c && c < 0xE000

/-- `String.prototype.isWellFormed`: every surrogate is half of a pair. -/
def Text.isWellFormed : Text → Bool
  | [] => true
  | [c] => !isHighSurrogate c && !isLowSurrogate c
  | c :: d :: rest =>
    if isHighSurrogate c then isLowSurrogate d && isWellFormed rest
    else !isLowSurrogate c && isWellFormed (d :: rest)

/-- A truthy string: neither `null` nor empty. -/
def truthy : Option String → Option String
  | some s => if s = "" then none else some s
  | none => none

end Js

namespace Prisma

/-- The `where` condition `column = value`: a value that is `undefined` does not filter. -/
def whereEq {α : Type*} [DecidableEq α] (value : Option α) (column : α) : Bool :=
  value.all fun v => column = v

variable {α : Type*} [DecidableEq α]

@[simp] theorem whereEq_none (a : α) : whereEq none a = true := rfl

@[simp] theorem whereEq_some (v a : α) : whereEq (some v) a = decide (a = v) := rfl

/-- The option `take` of a query: the first `n` rows of its ordering, or the last `|n|`. -/
def take {α : Type*} (n : ℤ) (rows : List α) : List α :=
  if 0 ≤ n then rows.take n.toNat else rows.drop (rows.length - n.natAbs)

theorem take_natCast {α : Type*} (n : ℕ) (rows : List α) : take n rows = rows.take n := by
  simp [take]

theorem take_sublist {α : Type*} (n : ℤ) (rows : List α) : (take n rows).Sublist rows := by
  unfold take
  split_ifs
  · exact List.take_sublist ..
  · exact List.drop_sublist ..

end Prisma

namespace Redis

/-- The part of a list between two indices, both included, where negative indices count from the end
(`LRANGE`, and what `LTRIM` leaves). -/
def range {α : Type*} (start stop : ℤ) (list : List α) : List α :=
  let index (i : ℤ) : ℤ := if i < 0 then i + list.length else i
  (list.take (index stop + 1).toNat).drop (index start).toNat

/-- The first `n` elements. -/
theorem range_zero {α : Type*} {n : ℕ} (pos : 1 ≤ n) (list : List α) :
    range 0 (n - 1) list = list.take n := by
  have stop : ¬ ((n : ℤ) - 1 < 0) := by omega
  simp [range, stop]

theorem range_sublist {α : Type*} (start stop : ℤ) (list : List α) :
    (range start stop list).Sublist list :=
  (List.drop_sublist ..).trans (List.take_sublist ..)

end Redis

end EstateServer
