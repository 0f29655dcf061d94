import EstateServer.Property.Domain

/-!
# Posts and comments

`Post` and `Comment` with the checks of their constructors, and the errors of the board.
-/

namespace EstateServer.Board

open Property

abbrev PostId := ℕ
abbrev CommentId := ℕ
abbrev PostLikeId := ℕ

inductive PostCategory
  | notice
  | free
  deriving DecidableEq, Repr

/-- `Post`; without an id it is not saved yet. -/
structure Post where
  id : Option PostId
  buildingId : BuildingId
  authorId : Auth.UserId
  category : PostCategory
  title : String
  content : String
  deriving DecidableEq, Repr

/-- `Comment`; without an id it is not saved yet. -/
structure Comment where
  id : Option CommentId
  postId : PostId
  authorId : Auth.UserId
  content : String
  deriving DecidableEq, Repr

/-- `BoardError`: the errors of the catalogue that the requests below throw. -/
inductive BoardError
  | postNotFound
  | notBuildingMember
  deriving DecidableEq, Repr

/-- The catalogue entry of an error. -/
def BoardError.spec : BoardError → AppErrorSpec
  | postNotFound => ⟨"BOARD_POST_NOT_FOUND", 404, "게시글을 찾을 수 없습니다."⟩
  | notBuildingMember => ⟨"BOARD_NOT_BUILDING_MEMBER", 403, "해당 건물의 멤버가 아닙니다."⟩

structure CreatePostInput where
  userId : Option Auth.UserId
  buildingId : BuildingId
  category : Option PostCategory
  title : String
  content : String
  deriving DecidableEq, Repr

structure CreateCommentInput where
  userId : Option Auth.UserId
  postId : PostId
  content : String
  deriving DecidableEq, Repr

/-- `LikePostInput` and `UnlikePostInput`. -/
structure LikePostInput where
  userId : Option Auth.UserId
  postId : PostId
  deriving DecidableEq, Repr

/-- `Post.create`; the error is the message of the `DomainError`. -/
def Post.create (input : CreatePostInput) : Except String Post :=
  match input.userId with
  | none => .error "작성자 ID는 필수입니다."
  | some authorId =>
    if input.title = "" then .error "제목은 필수입니다."
    else if input.content = "" then .error "본문은 필수입니다."
    else
      .ok
        { id := none
          buildingId := input.buildingId
          authorId
          category := input.category.getD .free
          title := input.title
          content := input.content }

/-- `Comment.create`; the error is the message of the `DomainError`. -/
def Comment.create (input : CreateCommentInput) : Except String Comment :=
  match input.userId with
  | none => .error "작성자 ID는 필수입니다."
  | some authorId =>
    if input.content = "" then .error "내용은 필수입니다."
    else .ok { id := none, postId := input.postId, authorId, content := input.content }

end EstateServer.Board
