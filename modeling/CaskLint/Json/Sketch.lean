import CaskLint.Json.Numeral

/-!
# Texts that may go wrong

  A reader goes through a text from left to right and stops at the first problem, so what is
  wrong later in the text must not matter yet. A **`Sketch`** is the value that a text spells
  up to the place where it stops being JSON: every fault sits at its place in the tree. An
  array or object that the text never closes keeps the fault in `fault`.

* **`Builder`** — builds the sketch from the tokens, one step a token, with the open arrays
  and objects on a stack. So a text may nest as deep as it likes.
* **`Outline.ofText`** — the sketch of a text, and whether anything follows it.
* **`Sketch.skip`** — passing over a value without looking into it: only what is needed to
  find its end can fail.
* **`Sketch.value`** — the value itself. Here strings must be made of characters, numbers
  must be in range, and arrays and objects may be nested only so deep.
-/

namespace CaskLint.Json

/-! ## Sketches -/

/-- What a text spells, up to its first fault. -/
inductive Sketch where
  /-- No value stands where one should. -/
  | broken (f : Fault)
  /-- A number stands there but goes wrong. -/
  | brokenNumber (f : Fault)
  | null
  | flag (value : Bool)
  | number (n : Numeral)
  | text (q : Quotation)
  | array (items : List Sketch) (fault : Option Fault)
  | object (members : List (Quotation × Sketch)) (fault : Option Fault)

/-! ## Building a sketch from tokens -/

/-- An array or object that is open, with what came before in reverse. -/
inductive Frame where
  | array (before : List Sketch)
  | object (before : List (Quotation × Sketch)) (name : Quotation)

/-- The array or object, once `v` is its last item or the value of its last member. -/
def Frame.close (fault : Option Fault) (v : Sketch) : Frame → Sketch
  | .array before => .array (v :: before).reverse fault
  | .object before name => .object ((name, v) :: before).reverse fault

/-- What is due next in a text. -/
inductive Builder where
  /-- A value. -/
  | dueValue (stack : List Frame)
  /-- The first item of an array, or its end. -/
  | dueItem (stack : List Frame)
  /-- The first name of an object, or its end. -/
  | dueMember (stack : List Frame)
  /-- The name of a further member. -/
  | dueName (before : List (Quotation × Sketch)) (stack : List Frame)
  /-- The colon after a name. -/
  | dueColon (before : List (Quotation × Sketch)) (name : Quotation) (stack : List Frame)
  /-- What may follow the complete value `v`. -/
  | settled (v : Sketch) (stack : List Frame)
  /-- Nothing: the sketch is complete, and `trailing` says whether text follows a value. -/
  | over (v : Sketch) (trailing : Bool)

namespace Builder

/-- The sketch when the text goes wrong after `v`, in the open arrays and objects. -/
def abandon (f : Fault) (v : Sketch) (stack : List Frame) : Sketch :=
  stack.foldl (fun v frame => frame.close (some f) v) v

/-- The text goes wrong right after `v`. -/
def failAfter (f : Fault) (v : Sketch) (stack : List Frame) : Builder :=
  .over (abandon f v stack) false

/-- A token that stands where a value is due. -/
def stepValue (stack : List Frame) : Token → Builder
  | .openArray => .dueItem stack
  | .openObject => .dueMember stack
  | .null => .settled .null stack
  | .flag value => .settled (.flag value) stack
  | .number n => .settled (.number n) stack
  | .text q =>
    match q.fault with
    | none => .settled (.text q) stack
    | some f => failAfter f (.text q) stack
  | .broken f => failAfter f (.broken f) stack
  | .brokenNumber f => failAfter f (.brokenNumber f) stack
  | .closeArray | .closeObject | .comma | .colon => failAfter .malformed (.broken .malformed) stack

/-- A token that stands where a name is due. -/
def stepName (before : List (Quotation × Sketch)) (stack : List Frame) : Token → Builder
  | .text q =>
    match q.fault with
    | none => .dueColon before q stack
    | some f => failAfter f (.object ((q, .broken f) :: before).reverse (some f)) stack
  | _ => failAfter .malformed (.object before.reverse (some .malformed)) stack

/-- A token that stands after a complete value. -/
def stepSettled (v : Sketch) : List Frame → Token → Builder
  | [], _ => .over v true
  | .array before :: stack, .comma => .dueValue (.array (v :: before) :: stack)
  | .array before :: stack, .closeArray => .settled ((Frame.array before).close none v) stack
  | .object before name :: stack, .comma => .dueName ((name, v) :: before) stack
  | .object before name :: stack, .closeObject =>
    .settled ((Frame.object before name).close none v) stack
  | frame :: stack, _ => failAfter .malformed (frame.close (some .malformed) v) stack

/-- One more token. -/
def step : Builder → Token → Builder
  | .dueValue stack, t => stepValue stack t
  | .dueItem stack, .closeArray => .settled (.array [] none) stack
  | .dueItem stack, t => stepValue (.array [] :: stack) t
  | .dueMember stack, .closeObject => .settled (.object [] none) stack
  | .dueMember stack, t => stepName [] stack t
  | .dueName before stack, t => stepName before stack t
  | .dueColon before name stack, .colon => .dueValue (.object before name :: stack)
  | .dueColon before name stack, _ =>
    failAfter .malformed (.broken .malformed) (.object before name :: stack)
  | .settled v stack, t => stepSettled v stack t
  | .over v trailing, _ => .over v trailing

/-- The sketch when the text ends here, and whether text followed a value. -/
def finish : Builder → Sketch × Bool
  | .dueValue stack => (abandon .truncated (.broken .truncated) stack, false)
  | .dueItem stack => (abandon .truncated (.array [] (some .truncated)) stack, false)
  | .dueMember stack => (abandon .truncated (.object [] (some .truncated)) stack, false)
  | .dueName before stack =>
    (abandon .truncated (.object before.reverse (some .truncated)) stack, false)
  | .dueColon before name stack =>
    (abandon .truncated (.broken .truncated) (.object before name :: stack), false)
  | .settled v stack => (abandon .truncated v stack, false)
  | .over v trailing => (v, trailing)

end Builder

/-- The sketch of a text, and whether text follows a complete value. -/
structure Outline where
  sketch : Sketch
  trailing : Bool

/-- The outline of a list of tokens. -/
def Outline.ofTokens (ts : List Token) : Outline :=
  let (sketch, trailing) := (ts.foldl Builder.step (.dueValue [])).finish
  ⟨sketch, trailing⟩

/-- The outline of a text. -/
def Outline.ofText (text : String) : Outline :=
  ofTokens (Token.scan text.toList)

/-! ## Passing over a value -/

/-- Succeeds unless there is a fault. -/
def failOn : Option Fault → Except Fault Unit
  | none => .ok ()
  | some f => .error f

mutual

/-- Passes over a value. A number that goes wrong is malformed, wherever the text ends. -/
def Sketch.skip : Sketch → Except Fault Unit
  | .broken f => .error f
  | .brokenNumber _ => .error .malformed
  | .null | .flag _ | .number _ => .ok ()
  | .text q => failOn q.fault
  | .array items fault => do
    Sketch.skipItems items
    failOn fault
  | .object members fault => do
    Sketch.skipMembers members
    failOn fault

/-- Passes over the items of an array. -/
def Sketch.skipItems : List Sketch → Except Fault Unit
  | [] => .ok ()
  | v :: vs => do
    v.skip
    Sketch.skipItems vs

/-- Passes over the members of an object, names and values. -/
def Sketch.skipMembers : List (Quotation × Sketch) → Except Fault Unit
  | [] => .ok ()
  | (name, v) :: ms => do
    failOn name.fault
    v.skip
    Sketch.skipMembers ms

end

/-! ## Reading a value -/

/-- Whether a code unit is the first of a pair. -/
def isHighSurrogate (u : Nat) : Bool := 0xD800 ≤ u && u ≤ 0xDBFF

/-- Whether a code unit is the second of a pair. -/
def isLowSurrogate (u : Nat) : Bool := 0xDC00 ≤ u && u ≤ 0xDFFF

/-- The character that two paired code units encode. -/
def pairedChar (high low : Nat) : Char :=
  Char.ofNat ((high - 0xD800) * 0x400 + (low - 0xDC00) + 0x10000)

/-- The characters that the pieces of a string spell; code units must come in pairs. -/
def readPieces (fault : Option Fault) : List Piece → Except Fault (List Char)
  | [] => (failOn fault).map fun _ => []
  | .char c :: ps => (c :: ·) <$> readPieces fault ps
  | .unit u :: ps =>
    if isLowSurrogate u then .error .malformed
    else if isHighSurrogate u then
      match ps with
      | .unit v :: ps =>
        if isLowSurrogate v then (pairedChar u v :: ·) <$> readPieces fault ps
        else .error .malformed
      | .char _ :: _ => .error .malformed
      | [] => .error (fault.getD .malformed)
    else (Char.ofNat u :: ·) <$> readPieces fault ps

/-- The text that a string spells. -/
def Quotation.read (q : Quotation) : Except Fault String :=
  String.ofList <$> readPieces q.fault q.pieces

/-- The value of a number; one out of range is malformed. -/
def Numeral.read (n : Numeral) : Except Fault Json :=
  match n.value? with
  | some v => .ok v
  | none => .error .malformed

/-- How many arrays and objects may be open at once. -/
def maxDepth : Nat := 127

mutual

/-- The value that a sketch spells, with at most `depth` arrays and objects open in it. -/
def Sketch.value (depth : Nat) : Sketch → Except Fault Json
  | .broken f => .error f
  | .brokenNumber f => .error f
  | .null => .ok .null
  | .flag value => .ok (.flag value)
  | .number n => n.read
  | .text q => .text <$> q.read
  | .array items fault =>
    match depth with
    | 0 => .error .malformed
    | depth + 1 => do
      let values ← Sketch.values depth items
      failOn fault
      return .array values
  | .object members fault =>
    match depth with
    | 0 => .error .malformed
    | depth + 1 => do
      let members ← Sketch.memberValues depth members
      failOn fault
      return .object members

/-- The values of the items of an array. -/
def Sketch.values (depth : Nat) : List Sketch → Except Fault (List Json)
  | [] => .ok []
  | v :: vs => do
    let value ← v.value depth
    let values ← Sketch.values depth vs
    return value :: values

/-- The names and values of the members of an object. -/
def Sketch.memberValues (depth : Nat) :
    List (Quotation × Sketch) → Except Fault (List (String × Json))
  | [] => .ok []
  | (name, v) :: ms => do
    let name ← name.read
    let value ← v.value depth
    let members ← Sketch.memberValues depth ms
    return (name, value) :: members

end

/-- The value that a text spells; nothing may follow it. -/
def ofText (text : String) : Except Fault Json := do
  let outline := Outline.ofText text
  let v ← outline.sketch.value maxDepth
  if outline.trailing then .error .malformed else return v

end CaskLint.Json
