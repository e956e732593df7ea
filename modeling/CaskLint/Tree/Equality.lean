import CaskLint.Tree.Basic

/-!
# Equality of trees

  Two trees are equal when they have the same shape, spans, names and literals. Floating-point
  literals are compared as numbers: the two zeros are equal, and a literal that is not a
  number differs from every literal, itself included. So this `==` is not `=`.
-/

namespace CaskLint

/-- Equality of literals; floating-point literals are compared as numbers. -/
def Literal.sameValue : Literal → Literal → Bool
  | .float x, .float y => x.sameValue y
  | a, b => decide (a = b)

instance : BEq Literal where
  beq := Literal.sameValue

mutual

/-- Equality of nodes. -/
def Node.same : Node → Node → Bool
  | ⟨kind₁, span₁⟩, ⟨kind₂, span₂⟩ => kind₁.same kind₂ && span₁ == span₂

/-- Equality of kinds. -/
def Kind.same : Kind → Kind → Bool
  | .send a, .send b => a.same b
  | .block a, .block b => a.same b
  | .begin a, .begin b => Node.sameList a b
  | .interpolation a, .interpolation b => Node.sameList a b
  | .literal a, .literal b => a == b
  | .array a, .array b => Node.sameList a b
  | .hash a, .hash b => Node.sameList a b
  | .pair key₁ value₁, .pair key₂ value₂ => key₁.same key₂ && value₁.same value₂
  | .other label₁ a, .other label₂ b => label₁ == label₂ && Node.sameList a b
  | _, _ => false

/-- Equality of invocations. -/
def Invocation.same : Invocation → Invocation → Bool
  | ⟨receiver₁, method₁, args₁⟩, ⟨receiver₂, method₂, args₂⟩ =>
    Node.sameOption receiver₁ receiver₂ && method₁ == method₂ && Node.sameList args₁ args₂

/-- Equality of block calls. -/
def BlockCall.same : BlockCall → BlockCall → Bool
  | ⟨call₁, params₁, body₁⟩, ⟨call₂, params₂, body₂⟩ =>
    call₁.same call₂ && params₁ == params₂ && Node.sameOption body₁ body₂

/-- Equality of nodes that may be absent. -/
def Node.sameOption : Option Node → Option Node → Bool
  | none, none => true
  | some a, some b => a.same b
  | _, _ => false

/-- Equality of lists of nodes. -/
def Node.sameList : List Node → List Node → Bool
  | [], [] => true
  | a :: as, b :: bs => a.same b && Node.sameList as bs
  | _, _ => false

end

instance : BEq Node where
  beq := Node.same

end CaskLint
