import StructPadding.Go.Declaration
import StructPadding.Go.Sizes
import StructPadding.Placement

/-!
# Shapes of types

A type is resolved to what it looks like in memory: one block, or a record with the descriptors of
its fields. Names lead to the declarations of the file. What was resolved is remembered, also when
something later fails, and a declaration that is met while it is being resolved contains itself.
-/

namespace StructPadding.Go

/-- Why a type has no shape. -/
inductive TypeFault where
  | undefined (name : String)
  | uninstantiated (name : String)
  | recursive (name : String)
  | imported (package name : String)
  | instantiated (text : String)
  | tooLarge (text : String)
  | symbolicLength (length : String)
  | redeclared (name : String)
deriving DecidableEq

def TypeFault.message : TypeFault → String
  | undefined name => s!"undefined type {name}"
  | uninstantiated name => s!"generic type {name} used without instantiation"
  | recursive name => s!"invalid recursive type {name}"
  | imported package name => s!"cannot size imported type {package}.{name}"
  | instantiated text => s!"generic instantiation {text} is not supported"
  | tooLarge text => s!"array {text} is too large"
  | symbolicLength length => s!"array length {length} is not a literal"
  | redeclared name => s!"{name} redeclared in this file"

/-- Why resolution fails: the type has no shape, or its fields cannot be placed. -/
inductive ResolveError where
  | type (fault : TypeFault)
  | layout (error : LayoutError)
deriving DecidableEq

/-- What a type looks like in memory. -/
inductive Shape where
  | scalar (size align : UInt64)
  | record (fields : List Descriptor) (size align : UInt64)

namespace Shape

def size : Shape → UInt64
  | scalar size _ => size
  | record _ size _ => size

def align : Shape → UInt64
  | scalar _ align => align
  | record _ _ align => align

/-- The descriptor of a field of this shape. A record without fields is a block of memory. -/
def descriptor (name typeName : String) : Shape → Descriptor
  | scalar size align => .leaf name typeName size.toInt64 align.toInt64
  | record [] size align => .leaf name typeName size.toInt64 align.toInt64
  | record fields _ align => .record name typeName 0 align.toInt64 fields

end Shape

/-- What names are resolved in: the target, the rule for records and the declarations of a file. -/
structure Scope where
  target : Target
  rule : RecordRule
  decls : List TypeDecl

/-- The shapes of the declarations that were resolved. -/
abbrev Memo : Type :=
  List (String × Shape)

namespace Scope

/-- One pointer. -/
def pointer (s : Scope) : Shape :=
  .scalar s.target.word s.target.word

/-- The shape of a record of such fields. -/
def recordShape (s : Scope) (ds : List Descriptor) : Except ResolveError Shape :=
  match place s.rule ds (0 : UInt64) with
  | .ok fields => .ok (.record ds (Field.totalSize fields) (.ofNat (RecordRule.widest ds)))
  | .error e => .error (.layout e)

mutual

/-- The shape of a type, given how names are resolved. -/
def shapeWith (s : Scope) (named : String → Memo → Except ResolveError Shape × Memo) :
    TypeExpr → Memo → Except ResolveError Shape × Memo
  | .named name, memo => named name memo
  | .qualified package name, memo =>
    if package = "unsafe" ∧ name = "Pointer" then (.ok s.pointer, memo)
    else (.error (.type (.imported package name)), memo)
  | .instantiated text, memo => (.error (.type (.instantiated text)), memo)
  | .pointer _, memo => (.ok s.pointer, memo)
  | .map _ _, memo => (.ok s.pointer, memo)
  | .chan _ _, memo => (.ok s.pointer, memo)
  | .func _, memo => (.ok s.pointer, memo)
  | .slice _, memo => (.ok (.scalar (3 * s.target.word) s.target.word), memo)
  | .interface _, memo => (.ok (.scalar (2 * s.target.word) s.target.word), memo)
  | .array length elem, memo =>
    match shapeWith s named elem memo with
    | (.ok shape, memo) =>
      let bytes := length * shape.size.toNat
      if bytes < 0x8000000000000000 then (.ok (.scalar (.ofNat bytes) shape.align), memo)
      else (.error (.type (.tooLarge (TypeExpr.array length elem).text)), memo)
    | (.error e, memo) => (.error e, memo)
  | .symbolicArray length _, memo => (.error (.type (.symbolicLength length)), memo)
  | .struct fields, memo =>
    match descriptorsWith s named fields memo with
    | (.ok ds, memo) => (s.recordShape ds, memo)
    | (.error e, memo) => (.error e, memo)

/-- The descriptors of the fields of a struct. -/
def descriptorsWith (s : Scope) (named : String → Memo → Except ResolveError Shape × Memo) :
    List (FieldDecl TypeExpr) → Memo → Except ResolveError (List Descriptor) × Memo
  | [], memo => (.ok [], memo)
  | ⟨name, type, _⟩ :: fields, memo =>
    match shapeWith s named type memo with
    | (.ok shape, memo) =>
      match descriptorsWith s named fields memo with
      | (.ok ds, memo) => (.ok (shape.descriptor name type.text :: ds), memo)
      | (.error e, memo) => (.error e, memo)
    | (.error e, memo) => (.error e, memo)

end

/-- The shape of a predeclared type. -/
def predeclared (s : Scope) (name : String) : Except ResolveError Shape :=
  match s.target.predeclared? name with
  | some (size, align) => .ok (.scalar size align)
  | none => .error (.type (.undefined name))

/-- The declaration of a name. -/
def find? (s : Scope) (name : String) : Option TypeDecl :=
  s.decls.find? fun d => d.name == name

/-- The shape of a declaration once it is resolved is remembered. -/
def remember (name : String) : Except ResolveError Shape × Memo → Except ResolveError Shape × Memo
  | (.ok shape, memo) => (.ok shape, (name, shape) :: memo)
  | (.error e, memo) => (.error e, memo)

/-- The shape of a name while the declarations of the names in `visiting` are being resolved. `left`
is how many declarations may still be opened; when all of them are open, every declared name is met
again. -/
def resolveWith (s : Scope) : Nat → List String → String → Memo → Except ResolveError Shape × Memo
  | left, visiting, name, memo =>
    match s.find? name with
    | none => (s.predeclared name, memo)
    | some decl =>
      match memo.lookup name with
      | some shape => (.ok shape, memo)
      | none =>
        if decl.generic then (.error (.type (.uninstantiated name)), memo)
        else if visiting.contains name then (.error (.type (.recursive name)), memo)
        else
          match left with
          | 0 => (.error (.type (.recursive name)), memo)
          | left + 1 =>
            remember name (s.shapeWith (s.resolveWith left (name :: visiting)) decl.type memo)

/-- The shape of a name. -/
def resolve (s : Scope) (name : String) (memo : Memo) : Except ResolveError Shape × Memo :=
  s.resolveWith s.decls.length [] name memo

/-- The descriptors of the fields of a declaration, if it is not generic and is a struct underneath.
-/
def recordFields (s : Scope) (decl : TypeDecl) (memo : Memo) :
    Except ResolveError (Option (List Descriptor)) × Memo :=
  if decl.generic then (.ok none, memo)
  else
    match s.resolve decl.name memo with
    | (.ok (.record fields _ _), memo) => (.ok (some fields), memo)
    | (.ok (.scalar _ _), memo) => (.ok none, memo)
    | (.error e, memo) => (.error e, memo)

end Scope

end StructPadding.Go
