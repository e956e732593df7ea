import CaskLint.Json.Sketch
import CaskLint.Proofs.Json.Spelling

/-!
# The sketch that a text spells

  A sketch without a fault is spelled as its tokens, with blanks before and after each
  (**`Spells`**). The outline of such a text is that sketch, with nothing after it
  (**`outline_of_spells`**), and every outline without a fault is one that its text spells
  (**`spells_of_outline`**), so a text spells one sketch at most.

  The builder keeps an account of what it has read: **`Builder.tokens`**. Each step adds its token
  to that account or ends in a fault (`tokens_step`), and so does a whole run (`tokens_foldl`).
-/

namespace CaskLint.Json

/-! ## The tokens of a sketch -/

/-- What closes an array or object; a fault where it should be closed has no spelling. -/
def closing (t : Token) : Option Fault → Token
  | none => t
  | some f => .broken f

mutual

/-- The tokens of a sketch. -/
def Sketch.tokens : Sketch → List Token
  | .broken f => [.broken f]
  | .brokenNumber f => [.brokenNumber f]
  | .null => [.null]
  | .flag value => [.flag value]
  | .number n => [.number n]
  | .text q => [.text q]
  | .array items fault => .openArray :: (Sketch.itemTokens items ++ [closing .closeArray fault])
  | .object members fault =>
    .openObject :: (Sketch.memberTokens members ++ [closing .closeObject fault])

/-- The tokens of the items of an array, with commas between them. -/
def Sketch.itemTokens : List Sketch → List Token
  | [] => []
  | v :: vs => v.tokens ++ Sketch.moreItemTokens vs

/-- The tokens of the items after the first one. -/
def Sketch.moreItemTokens : List Sketch → List Token
  | [] => []
  | v :: vs => .comma :: (v.tokens ++ Sketch.moreItemTokens vs)

/-- The tokens of the members of an object, with commas between them. -/
def Sketch.memberTokens : List (Quotation × Sketch) → List Token
  | [] => []
  | (q, v) :: ms => .text q :: .colon :: (v.tokens ++ Sketch.moreMemberTokens ms)

/-- The tokens of the members after the first one. -/
def Sketch.moreMemberTokens : List (Quotation × Sketch) → List Token
  | [] => []
  | (q, v) :: ms => .comma :: .text q :: .colon :: (v.tokens ++ Sketch.moreMemberTokens ms)

end

/-- A text spells a sketch. -/
def Spells (text : String) (s : Sketch) : Prop := Spaced s.tokens text.toList

/-! ## Numbers never meet -/

/-- No two tokens that follow one another are numbers. -/
abbrev NumbersApart (ts : List Token) : Prop :=
  ts.IsChain fun t t' => t.isNumber = true → t'.isNumber = false

/-- What does not begin with a number. -/
def NoNumberFirst (ts : List Token) : Prop := ∀ t ∈ ts.head?, t.isNumber = false

theorem noNumberFirst_cons {t : Token} (ht : t.isNumber = false) (ts : List Token) :
    NoNumberFirst (t :: ts) := by
  intro t' ht'
  obtain rfl := Option.some.inj ht'
  exact ht

theorem isNumber_closing {t : Token} (ht : t.isNumber = false) (fault : Option Fault) :
    (closing t fault).isNumber = false := by
  cases fault with
  | none => exact ht
  | some f => rfl

theorem numbersApart_cons {t : Token} {ts : List Token} (hts : NumbersApart ts)
    (h : t.isNumber = true → NoNumberFirst ts) : NumbersApart (t :: ts) :=
  List.isChain_cons.mpr ⟨fun t' ht' ht => h ht t' ht', hts⟩

theorem noNumberFirst_moreItemTokens (vs : List Sketch) {ts : List Token}
    (hts : NoNumberFirst ts) : NoNumberFirst (Sketch.moreItemTokens vs ++ ts) := by
  cases vs with
  | nil => exact hts
  | cons v vs => exact noNumberFirst_cons rfl _

theorem noNumberFirst_moreMemberTokens (ms : List (Quotation × Sketch)) {ts : List Token}
    (hts : NoNumberFirst ts) : NoNumberFirst (Sketch.moreMemberTokens ms ++ ts) := by
  cases ms with
  | nil => exact hts
  | cons m ms => exact noNumberFirst_cons rfl _

mutual

/-- The numbers of a sketch are apart from one another and from what follows it. -/
theorem numbersApart_tokens (s : Sketch) {ts : List Token} (hts : NumbersApart ts)
    (hfirst : NoNumberFirst ts) : NumbersApart (s.tokens ++ ts) := by
  match s with
  | .broken _ | .brokenNumber _ | .null | .flag _ | .number _ | .text _ =>
      exact numbersApart_cons hts fun _ => hfirst
  | .array items fault =>
      have hclosed := isNumber_closing (t := .closeArray) rfl fault
      have hend : NumbersApart (closing .closeArray fault :: ts) :=
        numbersApart_cons hts fun h => nomatch hclosed.symm.trans h
      rw [Sketch.tokens, List.cons_append, List.append_assoc]
      refine numbersApart_cons ?_ fun h => nomatch h
      cases items with
      | nil => exact hend
      | cons v vs =>
          rw [Sketch.itemTokens, List.append_assoc]
          exact numbersApart_tokens v
            (numbersApart_moreItemTokens vs hend (noNumberFirst_cons hclosed ts))
            (noNumberFirst_moreItemTokens vs (noNumberFirst_cons hclosed ts))
  | .object members fault =>
      have hclosed := isNumber_closing (t := .closeObject) rfl fault
      have hend : NumbersApart (closing .closeObject fault :: ts) :=
        numbersApart_cons hts fun h => nomatch hclosed.symm.trans h
      rw [Sketch.tokens, List.cons_append, List.append_assoc]
      refine numbersApart_cons ?_ fun h => nomatch h
      match members with
      | [] => exact hend
      | (q, v) :: ms =>
          rw [Sketch.memberTokens, List.cons_append, List.cons_append, List.append_assoc]
          refine numbersApart_cons (numbersApart_cons ?_ fun h => nomatch h) fun h => nomatch h
          exact numbersApart_tokens v
            (numbersApart_moreMemberTokens ms hend (noNumberFirst_cons hclosed ts))
            (noNumberFirst_moreMemberTokens ms (noNumberFirst_cons hclosed ts))

theorem numbersApart_moreItemTokens (vs : List Sketch) {ts : List Token} (hts : NumbersApart ts)
    (hfirst : NoNumberFirst ts) : NumbersApart (Sketch.moreItemTokens vs ++ ts) := by
  match vs with
  | [] => exact hts
  | v :: vs =>
      rw [Sketch.moreItemTokens, List.cons_append, List.append_assoc]
      refine numbersApart_cons ?_ fun h => nomatch h
      exact numbersApart_tokens v (numbersApart_moreItemTokens vs hts hfirst)
        (noNumberFirst_moreItemTokens vs hfirst)

theorem numbersApart_moreMemberTokens (ms : List (Quotation × Sketch)) {ts : List Token}
    (hts : NumbersApart ts) (hfirst : NoNumberFirst ts) :
    NumbersApart (Sketch.moreMemberTokens ms ++ ts) := by
  match ms with
  | [] => exact hts
  | (q, v) :: ms =>
      rw [Sketch.moreMemberTokens]
      simp only [List.cons_append, List.append_assoc]
      refine numbersApart_cons (numbersApart_cons (numbersApart_cons ?_ fun h => nomatch h)
        fun h => nomatch h) fun h => nomatch h
      exact numbersApart_tokens v (numbersApart_moreMemberTokens ms hts hfirst)
        (noNumberFirst_moreMemberTokens ms hfirst)

end

/-! ## Building a sketch from its tokens -/

/-- Tokens without a fault. -/
abbrev AllSound (ts : List Token) : Prop := ∀ t ∈ ts, t.sound = true

theorem Token.sound_of_spells {t : Token} {cs : List Char} (h : t.Spells cs) :
    t.sound = true := by
  cases t with
  | text q => exact Option.isNone_iff_eq_none.mpr h.1
  | broken f | brokenNumber f => exact nomatch h
  | _ => rfl

theorem Spaced.sound {ts : List Token} {cs : List Char} (h : Spaced ts cs) : AllSound ts := by
  induction h with
  | nil => exact List.forall_mem_nil _
  | cons _ ht _ ih => exact List.forall_mem_cons.mpr ⟨Token.sound_of_spells ht, ih⟩

theorem eq_none_of_sound_closing {t : Token} {fault : Option Fault}
    (h : (closing t fault).sound = true) : fault = none := by
  cases fault with
  | none => rfl
  | some f => exact nomatch h

/-- No sketch begins with a closing bracket, so the first item of an array is built like any other
    value. -/
theorem foldl_step_firstItem {s : Sketch} (h : AllSound s.tokens) (stack : List Frame)
    (ts : List Token) :
    (s.tokens ++ ts).foldl Builder.step (.dueItem stack) =
      (s.tokens ++ ts).foldl Builder.step (.dueValue (.array [] :: stack)) := by
  cases s <;> rfl

theorem Builder.stepName_text {q : Quotation} (h : (Token.text q).sound = true)
    (before : List (Quotation × Sketch)) (stack : List Frame) :
    Builder.stepName before stack (.text q) = .dueColon before q stack := by
  have hq : q.fault = none := Option.isNone_iff_eq_none.mp h
  rw [stepName, hq]

mutual

/-- **The builder makes a sketch from its tokens** and goes on with what follows. -/
theorem foldl_step_sketch {s : Sketch} (h : AllSound s.tokens) (stack : List Frame)
    (ts : List Token) :
    (s.tokens ++ ts).foldl Builder.step (.dueValue stack) =
      ts.foldl Builder.step (.settled s stack) := by
  match s with
  | .broken _ | .brokenNumber _ => exact nomatch h _ (List.mem_singleton_self _)
  | .null | .flag _ | .number _ => rfl
  | .text q =>
      have hq : q.fault = none :=
        Option.isNone_iff_eq_none.mp (h (.text q) (List.mem_singleton_self _))
      show ts.foldl Builder.step (match q.fault with
        | none => .settled (.text q) stack
        | some f => Builder.failAfter f (.text q) stack) = _
      rw [hq]
  | .array items fault =>
      obtain ⟨hitems, hclosed⟩ := List.forall_mem_append.mp (List.forall_mem_cons.mp h).2
      obtain rfl := eq_none_of_sound_closing (hclosed _ (List.mem_singleton_self _))
      rw [Sketch.tokens, List.cons_append, List.append_assoc]
      show List.foldl Builder.step (.dueItem stack) _ = _
      match items with
      | [] => rfl
      | v :: vs =>
          obtain ⟨hv, hvs⟩ := List.forall_mem_append.mp hitems
          rw [Sketch.itemTokens, List.append_assoc, foldl_step_firstItem hv,
            foldl_step_sketch hv]
          exact foldl_step_moreItems hvs [] v stack ts
  | .object members fault =>
      obtain ⟨hmembers, hclosed⟩ := List.forall_mem_append.mp (List.forall_mem_cons.mp h).2
      obtain rfl := eq_none_of_sound_closing (hclosed _ (List.mem_singleton_self _))
      rw [Sketch.tokens, List.cons_append, List.append_assoc]
      show List.foldl Builder.step (.dueMember stack) _ = _
      match members with
      | [] => rfl
      | (q, v) :: ms =>
          obtain ⟨hq, hmembers⟩ := List.forall_mem_cons.mp hmembers
          obtain ⟨hv, hms⟩ := List.forall_mem_append.mp (List.forall_mem_cons.mp hmembers).2
          rw [Sketch.memberTokens, List.cons_append, List.cons_append, List.append_assoc]
          show List.foldl Builder.step (Builder.step (Builder.stepName [] stack (.text q)) .colon)
            _ = _
          rw [Builder.stepName_text hq]
          show List.foldl Builder.step (.dueValue (.object [] q :: stack)) _ = _
          rw [foldl_step_sketch hv]
          exact foldl_step_moreMembers hms [] q v stack ts

/-- The items that follow a complete item, up to the closing bracket. -/
theorem foldl_step_moreItems {vs : List Sketch} (h : AllSound (Sketch.moreItemTokens vs))
    (before : List Sketch) (v : Sketch) (stack : List Frame) (ts : List Token) :
    (Sketch.moreItemTokens vs ++ .closeArray :: ts).foldl Builder.step
        (.settled v (.array before :: stack)) =
      ts.foldl Builder.step (.settled (.array ((v :: before).reverse ++ vs) none) stack) := by
  match vs with
  | [] =>
      rw [List.append_nil]
      rfl
  | w :: vs =>
      obtain ⟨hw, hvs⟩ := List.forall_mem_append.mp (List.forall_mem_cons.mp h).2
      -- complete items are kept last first, so the next one is put in front of them
      have hlist : (v :: before).reverse ++ w :: vs = (w :: v :: before).reverse ++ vs := by
        rw [List.append_cons, ← List.reverse_cons]
      rw [hlist, Sketch.moreItemTokens, List.cons_append, List.append_assoc]
      show List.foldl Builder.step (.dueValue (.array (v :: before) :: stack)) _ = _
      rw [foldl_step_sketch hw, foldl_step_moreItems hvs]

/-- The members that follow a complete member, up to the closing brace. -/
theorem foldl_step_moreMembers {ms : List (Quotation × Sketch)}
    (h : AllSound (Sketch.moreMemberTokens ms)) (before : List (Quotation × Sketch))
    (q : Quotation) (v : Sketch) (stack : List Frame) (ts : List Token) :
    (Sketch.moreMemberTokens ms ++ .closeObject :: ts).foldl Builder.step
        (.settled v (.object before q :: stack)) =
      ts.foldl Builder.step
        (.settled (.object (((q, v) :: before).reverse ++ ms) none) stack) := by
  match ms with
  | [] =>
      rw [List.append_nil]
      rfl
  | (q', w) :: ms =>
      obtain ⟨hq, hmembers⟩ := List.forall_mem_cons.mp (List.forall_mem_cons.mp h).2
      obtain ⟨hw, hms⟩ := List.forall_mem_append.mp (List.forall_mem_cons.mp hmembers).2
      have hlist : ((q, v) :: before).reverse ++ (q', w) :: ms =
          ((q', w) :: (q, v) :: before).reverse ++ ms := by
        rw [List.append_cons, ← List.reverse_cons]
      rw [hlist, Sketch.moreMemberTokens]
      simp only [List.cons_append, List.append_assoc]
      show List.foldl Builder.step
        (Builder.step (Builder.stepName ((q, v) :: before) stack (.text q')) .colon) _ = _
      rw [Builder.stepName_text hq]
      show List.foldl Builder.step (.dueValue (.object ((q, v) :: before) q' :: stack)) _ = _
      rw [foldl_step_sketch hw, foldl_step_moreMembers hms]

end

/-- A text that spells a sketch has its tokens. -/
theorem scan_of_spells {text : String} {s : Sketch} (h : Spells text s) :
    Token.scan text.toList = s.tokens := by
  have hapart := numbersApart_tokens s List.isChain_nil fun t ht => nomatch ht
  rw [List.append_nil] at hapart
  exact Token.scan_of_spaced h hapart

/-- **The outline of a text that spells a sketch is that sketch**, with nothing after it. -/
theorem outline_of_spells {text : String} {s : Sketch} (h : Spells text s) :
    Outline.ofText text = ⟨s, false⟩ := by
  have hbuild := foldl_step_sketch h.sound [] []
  rw [List.append_nil] at hbuild
  rw [Outline.ofText, scan_of_spells h, Outline.ofTokens, hbuild]
  rfl

/-! ## What the builder has read -/

/-- The tokens of items that are followed by others. -/
def itemsRead (vs : List Sketch) : List Token := vs.flatMap fun v => v.tokens ++ [.comma]

/-- The tokens of members that are followed by others. -/
def membersRead (ms : List (Quotation × Sketch)) : List Token :=
  ms.flatMap fun m => .text m.1 :: .colon :: (m.2.tokens ++ [.comma])

theorem itemsRead_append (vs : List Sketch) (v : Sketch) :
    itemsRead (vs ++ [v]) = itemsRead vs ++ (v.tokens ++ [.comma]) := by
  rw [itemsRead, List.flatMap_append, List.flatMap_singleton, itemsRead]

theorem membersRead_append (ms : List (Quotation × Sketch)) (q : Quotation) (v : Sketch) :
    membersRead (ms ++ [(q, v)]) =
      membersRead ms ++ .text q :: .colon :: (v.tokens ++ [.comma]) := by
  rw [membersRead, List.flatMap_append, List.flatMap_singleton, membersRead]

/-- The tokens of the items of an array, seen from one of them. -/
theorem itemTokens_append_cons (vs : List Sketch) (v : Sketch) (ws : List Sketch) :
    Sketch.itemTokens (vs ++ v :: ws) =
      itemsRead vs ++ (v.tokens ++ Sketch.moreItemTokens ws) := by
  induction vs with
  | nil => rfl
  | cons w vs ih =>
      -- a comma and items are the items after a first one
      have hmore : Sketch.moreItemTokens (vs ++ v :: ws) =
          .comma :: Sketch.itemTokens (vs ++ v :: ws) := by
        cases vs <;> rfl
      rw [List.cons_append, Sketch.itemTokens, hmore, ih, itemsRead, itemsRead, List.flatMap_cons]
      simp only [List.append_assoc, List.cons_append, List.nil_append]

/-- The tokens of the members of an object, seen from one of them. -/
theorem memberTokens_append_cons (ms : List (Quotation × Sketch)) (q : Quotation) (v : Sketch)
    (ms' : List (Quotation × Sketch)) :
    Sketch.memberTokens (ms ++ (q, v) :: ms') =
      membersRead ms ++ .text q :: .colon :: (v.tokens ++ Sketch.moreMemberTokens ms') := by
  induction ms with
  | nil => rfl
  | cons m ms ih =>
      have hmore : Sketch.moreMemberTokens (ms ++ (q, v) :: ms') =
          .comma :: Sketch.memberTokens (ms ++ (q, v) :: ms') := by
        cases ms <;> rfl
      rw [List.cons_append, Sketch.memberTokens, hmore, ih, membersRead, membersRead,
        List.flatMap_cons]
      simp only [List.append_assoc, List.cons_append, List.nil_append]

/-- The tokens of an array or object that is open. -/
def Frame.tokens : Frame → List Token
  | .array before => .openArray :: itemsRead before.reverse
  | .object before name => .openObject :: (membersRead before.reverse ++ [.text name, .colon])

/-- The tokens of all arrays and objects that are open. -/
def stackTokens : List Frame → List Token
  | [] => []
  | frame :: stack => stackTokens stack ++ frame.tokens

namespace Builder

/-- The tokens that have been read; of no interest when the sketch is complete. -/
def tokens : Builder → List Token
  | .dueValue stack => stackTokens stack
  | .dueItem stack => stackTokens stack ++ [.openArray]
  | .dueMember stack => stackTokens stack ++ [.openObject]
  | .dueName before stack => stackTokens stack ++ .openObject :: membersRead before.reverse
  | .dueColon before name stack =>
    stackTokens stack ++ .openObject :: (membersRead before.reverse ++ [.text name])
  | .settled v stack => stackTokens stack ++ v.tokens
  | .over _ _ => []

/-- Whether a fault has ended the sketch, or more text after a value. -/
def isOver : Builder → Bool
  | .over _ _ => true
  | _ => false

theorem tokens_stepValue {stack : List Frame} {t : Token}
    (h : (stepValue stack t).isOver = false) :
    (stepValue stack t).tokens = stackTokens stack ++ [t] ∧ t.sound = true := by
  cases t with
  | text q =>
      rw [stepValue] at h ⊢
      cases hq : q.fault with
      | none => exact ⟨rfl, Option.isNone_iff_eq_none.mpr hq⟩
      | some f =>
          rw [hq] at h
          exact nomatch h
  | openArray | openObject | null | flag _ | number _ => exact ⟨rfl, rfl⟩
  | _ => exact nomatch h

theorem tokens_stepName {before : List (Quotation × Sketch)} {stack : List Frame} {t : Token}
    (h : (stepName before stack t).isOver = false) :
    (stepName before stack t).tokens = (dueName before stack).tokens ++ [t] ∧ t.sound = true := by
  cases t with
  | text q =>
      rw [stepName] at h ⊢
      cases hq : q.fault with
      | none =>
          refine ⟨?_, Option.isNone_iff_eq_none.mpr hq⟩
          simp only [tokens, List.append_assoc, List.cons_append]
      | some f =>
          rw [hq] at h
          exact nomatch h
  | _ => exact nomatch h

theorem tokens_stepSettled {v : Sketch} {stack : List Frame} {t : Token}
    (h : (stepSettled v stack t).isOver = false) :
    (stepSettled v stack t).tokens = stackTokens stack ++ v.tokens ++ [t] ∧ t.sound = true := by
  cases stack with
  | nil => cases h
  | cons frame stack =>
      cases frame with
      | array before =>
          cases t with
          | comma =>
              refine ⟨?_, rfl⟩
              simp only [stepSettled, tokens, stackTokens, Frame.tokens, List.reverse_cons,
                itemsRead_append, List.append_assoc, List.cons_append]
          | closeArray =>
              refine ⟨?_, rfl⟩
              simp only [stepSettled, tokens, stackTokens, Frame.tokens, Frame.close,
                List.reverse_cons, Sketch.tokens, itemTokens_append_cons, Sketch.moreItemTokens,
                List.append_nil, closing, List.append_assoc, List.cons_append]
          | _ => cases h
      | object before name =>
          cases t with
          | comma =>
              refine ⟨?_, rfl⟩
              simp only [stepSettled, tokens, stackTokens, Frame.tokens, List.reverse_cons,
                membersRead_append, List.append_assoc, List.cons_append, List.nil_append]
          | closeObject =>
              refine ⟨?_, rfl⟩
              simp only [stepSettled, tokens, stackTokens, Frame.tokens, Frame.close,
                List.reverse_cons, Sketch.tokens, memberTokens_append_cons,
                Sketch.moreMemberTokens, List.append_nil, closing, List.append_assoc,
                List.cons_append, List.nil_append]
          | _ => cases h

/-- The first item of an array is a value in an array without items. -/
theorem step_dueItem {t : Token} (h : t ≠ .closeArray) (stack : List Frame) :
    (dueItem stack).step t = stepValue (.array [] :: stack) t := by
  cases t with
  | closeArray => exact absurd rfl h
  | _ => rfl

theorem step_dueMember {t : Token} (h : t ≠ .closeObject) (stack : List Frame) :
    (dueMember stack).step t = stepName [] stack t := by
  cases t with
  | closeObject => exact absurd rfl h
  | _ => rfl

/-- **A step adds its token to what has been read**, or the sketch is over. -/
theorem tokens_step {b : Builder} {t : Token} (h : (b.step t).isOver = false) :
    (b.step t).tokens = b.tokens ++ [t] ∧ t.sound = true := by
  cases b with
  | dueValue stack => exact tokens_stepValue h
  | dueItem stack =>
      by_cases ht : t = .closeArray
      · subst ht
        refine ⟨?_, rfl⟩
        show stackTokens stack ++ [.openArray, .closeArray] = _
        rw [tokens, List.append_assoc]
        rfl
      · rw [step_dueItem ht] at h ⊢
        exact tokens_stepValue h
  | dueMember stack =>
      by_cases ht : t = .closeObject
      · subst ht
        refine ⟨?_, rfl⟩
        show stackTokens stack ++ [.openObject, .closeObject] = _
        rw [tokens, List.append_assoc]
        rfl
      · rw [step_dueMember ht] at h ⊢
        exact tokens_stepName h
  | dueName before stack => exact tokens_stepName h
  | dueColon before name stack =>
      cases t with
      | colon =>
          refine ⟨?_, rfl⟩
          simp only [step, tokens, stackTokens, Frame.tokens, List.append_assoc, List.cons_append,
            List.nil_append]
      | _ => exact nomatch h
  | settled v stack => exact tokens_stepSettled h
  | «over» v trailing => exact nomatch h

/-- What is over stays over. -/
theorem isOver_foldl {b : Builder} (h : b.isOver = true) (ts : List Token) :
    ts.foldl step b = b := by
  cases b with
  | «over» v trailing =>
      induction ts with
      | nil => rfl
      | cons t ts ih => exact ih
  | _ => exact nomatch h

/-- **A run adds its tokens to what has been read**, unless the sketch is over at its end. -/
theorem tokens_foldl {ts : List Token} {b : Builder} (h : (ts.foldl step b).isOver = false) :
    (ts.foldl step b).tokens = b.tokens ++ ts ∧ AllSound ts := by
  induction ts generalizing b with
  | nil => exact ⟨(List.append_nil _).symm, List.forall_mem_nil _⟩
  | cons t ts ih =>
      have hstep : (b.step t).isOver = false := by
        by_contra hover
        rw [Bool.not_eq_false] at hover
        rw [List.foldl_cons, isOver_foldl hover, hover] at h
        exact nomatch h
      obtain ⟨htokens, ht⟩ := tokens_step hstep
      obtain ⟨hrun, hts⟩ := ih h
      refine ⟨?_, List.forall_mem_cons.mpr ⟨ht, hts⟩⟩
      rw [List.foldl_cons, hrun, htokens, List.append_assoc]
      rfl

end Builder

/-! ## Faults show at the top -/

/-- Whether a sketch is at fault itself, apart from what is inside it. -/
def Sketch.faulty : Sketch → Bool
  | .broken _ | .brokenNumber _ => true
  | .text q => q.fault.isSome
  | .array _ fault | .object _ fault => fault.isSome
  | _ => false

namespace Builder

theorem faulty_close (f : Fault) (v : Sketch) (frame : Frame) :
    (frame.close (some f) v).faulty = true := by
  cases frame <;> rfl

/-- A fault goes through all arrays and objects that are open. -/
theorem faulty_abandon {f : Fault} {v : Sketch} {stack : List Frame}
    (h : v.faulty = true ∨ stack ≠ []) : (abandon f v stack).faulty = true := by
  induction stack generalizing v with
  | nil => exact h.resolve_right fun hne => hne rfl
  | cons frame stack ih => exact ih (Or.inl (faulty_close f v frame))

/-- A sketch that a fault has ended is at fault. -/
def FaultShown : Builder → Prop
  | .over v false => v.faulty = true
  | _ => True

theorem faultShown_failAfter {f : Fault} {v : Sketch} (h : v.faulty = true)
    (stack : List Frame) : (failAfter f v stack).FaultShown :=
  faulty_abandon (Or.inl h)

theorem faultShown_stepValue (stack : List Frame) (t : Token) :
    (stepValue stack t).FaultShown := by
  cases t with
  | text q =>
      rw [stepValue]
      cases hq : q.fault with
      | none => trivial
      | some f => exact faultShown_failAfter (by rw [Sketch.faulty, hq]; rfl) stack
  | openArray | openObject | null | flag _ | number _ => trivial
  | _ => exact faultShown_failAfter rfl stack

theorem faultShown_stepName (before : List (Quotation × Sketch)) (stack : List Frame)
    (t : Token) : (stepName before stack t).FaultShown := by
  cases t with
  | text q =>
      rw [stepName]
      cases q.fault with
      | none => trivial
      | some f => exact faultShown_failAfter rfl stack
  | _ => exact faultShown_failAfter rfl stack

theorem faultShown_stepSettled (v : Sketch) (stack : List Frame) (t : Token) :
    (stepSettled v stack t).FaultShown := by
  cases stack with
  | nil => trivial
  | cons frame stack =>
      cases frame with
      | array before =>
          cases t with
          | comma | closeArray => trivial
          | _ => exact faultShown_failAfter (faulty_close _ _ _) stack
      | object before name =>
          cases t with
          | comma | closeObject => trivial
          | _ => exact faultShown_failAfter (faulty_close _ _ _) stack

theorem faultShown_step {b : Builder} (h : b.FaultShown) (t : Token) : (b.step t).FaultShown := by
  cases b with
  | dueValue stack => exact faultShown_stepValue stack t
  | dueItem stack =>
      by_cases ht : t = .closeArray
      · subst ht
        trivial
      · rw [step_dueItem ht]
        exact faultShown_stepValue _ t
  | dueMember stack =>
      by_cases ht : t = .closeObject
      · subst ht
        trivial
      · rw [step_dueMember ht]
        exact faultShown_stepName [] stack t
  | dueName before stack => exact faultShown_stepName before stack t
  | dueColon before name stack =>
      cases t with
      | colon => trivial
      | _ => exact faultShown_failAfter rfl _
  | settled v stack => exact faultShown_stepSettled v stack t
  | «over» v trailing => exact h

theorem faultShown_foldl {b : Builder} (h : b.FaultShown) (ts : List Token) :
    (ts.foldl step b).FaultShown := by
  induction ts generalizing b with
  | nil => exact h
  | cons t ts ih => exact ih (faultShown_step h t)

/-- A sketch without a fault and with nothing after it was complete when the text ended. -/
theorem eq_settled_of_finish {b : Builder} {s : Sketch} (hb : b.FaultShown)
    (h : b.finish = (s, false)) (hs : s.faulty = false) : b = .settled s [] := by
  have hcontra : ∀ {f : Fault} {v : Sketch} {stack : List Frame},
      (abandon f v stack, false) = (s, false) → v.faulty = true ∨ stack ≠ [] → False := by
    intro f v stack heq hfault
    rw [← (Prod.mk.inj heq).1, faulty_abandon hfault] at hs
    exact nomatch hs
  cases b with
  | settled v stack =>
      cases stack with
      | nil =>
          obtain ⟨rfl, -⟩ := Prod.mk.inj h
          rfl
      | cons frame stack => exact (hcontra h (Or.inr (List.cons_ne_nil _ _))).elim
  | «over» v trailing =>
      obtain ⟨rfl, rfl⟩ := Prod.mk.inj h
      exact nomatch hs.symm.trans hb
  | _ => exact (hcontra h (Or.inl rfl)).elim

end Builder

/-- **A text whose outline shows no fault spells the sketch of that outline.** -/
theorem spells_of_outline {text : String} {s : Sketch} (h : Outline.ofText text = ⟨s, false⟩)
    (hs : s.faulty = false) : Spells text s := by
  have hfinish : ((Token.scan text.toList).foldl Builder.step (.dueValue [])).finish =
      (s, false) := by
    obtain ⟨hsketch, htrailing⟩ := Outline.mk.inj h
    exact Prod.ext hsketch htrailing
  have hsettled := Builder.eq_settled_of_finish
    (Builder.faultShown_foldl (b := .dueValue []) trivial _) hfinish hs
  have hrun : ((Token.scan text.toList).foldl Builder.step (.dueValue [])).isOver = false := by
    rw [hsettled]
    rfl
  obtain ⟨htokens, hsound⟩ := Builder.tokens_foldl hrun
  -- the account of the run is the tokens of the sketch
  rw [hsettled] at htokens
  rw [Spells, show s.tokens = Token.scan text.toList from htokens]
  exact Token.spaced_of_scan hsound

end CaskLint.Json
