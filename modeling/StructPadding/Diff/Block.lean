/-!
# Lines and blocks

A text is compared line by line, as bytes. A diff is a list of blocks: runs of lines that both texts
have, that only the base has, or that only the head has. In normal form no block is empty,
neighbours are of different kinds, and deleted lines stand before inserted ones.
-/

namespace StructPadding.Diff

/-- A line of a text, without its end. -/
abbrev Line : Type :=
  List UInt8

/-- The lines of a text. A line feed at the very end starts no further line. -/
def splitLines (text : List UInt8) : List Line :=
  if text.isEmpty then []
  else
    let body := if text.getLast? = some 0x0a then text.dropLast else text
    body.splitOn 0x0a

inductive BlockKind where
  /-- Lines of both texts. -/
  | equal
  /-- Lines of the head only. -/
  | inserted
  /-- Lines of the base only. -/
  | deleted
deriving DecidableEq

def BlockKind.word : BlockKind → String
  | equal => "equal"
  | inserted => "inserted"
  | deleted => "deleted"

/-- A run of lines of one kind. -/
structure Block where
  kind : BlockKind
  count : Nat
deriving DecidableEq

def Block.text (b : Block) : String :=
  s!"{b.kind.word} x{b.count}"

/-- A block, unless it is empty. -/
def block (kind : BlockKind) (count : Nat) : List Block :=
  if count = 0 then [] else [⟨kind, count⟩]

/-- Puts equal lines before a diff in normal form. -/
def joinEqual (count : Nat) : List Block → List Block
  | ⟨.equal, more⟩ :: blocks => ⟨.equal, count + more⟩ :: blocks
  | blocks => ⟨.equal, count⟩ :: blocks

/-- The normal form of a diff that goes on after so many deleted and inserted lines. -/
def normalFrom (deleted inserted : Nat) : List Block → List Block
  | [] => block .deleted deleted ++ block .inserted inserted
  | ⟨.deleted, n⟩ :: blocks => normalFrom (deleted + n) inserted blocks
  | ⟨.inserted, n⟩ :: blocks => normalFrom deleted (inserted + n) blocks
  | ⟨.equal, n⟩ :: blocks =>
    if n = 0 then normalFrom deleted inserted blocks
    else
      block .deleted deleted ++ block .inserted inserted ++ joinEqual n (normalFrom 0 0 blocks)

/-- The normal form of a diff: edits between two runs of equal lines are gathered, deletions first.
-/
def normal (blocks : List Block) : List Block :=
  normalFrom 0 0 blocks

/-- Whether a diff has only equal lines. -/
def isUnchanged (blocks : List Block) : Bool :=
  blocks.all fun b => b.kind == .equal

end StructPadding.Diff
