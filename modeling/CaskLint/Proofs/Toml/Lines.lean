import CaskLint.Proofs.Toml.Texts
import CaskLint.Toml.Reader

/-!
# Reading written lines

  A written document is a header and, below it, one line for each key. This is what the reader
  makes of such lines, whatever follows them: a text is a value (`value?_writeText`), a list of
  texts is one, on one line or on several (**`value?_writeTexts`**), a bare key is taken as it is
  (`key?_bare`), and a header or a key with its value is one statement (`statements_header`,
  `statements_define`).
-/

namespace CaskLint.Toml

/-! ## Blanks -/

theorem skipBlanks_of_not_blank {c : Char} (h : isBlank c = false) (cs : List Char) :
    skipBlanks (c :: cs) = c :: cs :=
  List.dropWhile_cons_of_neg (by simp [h])

/-- What begins with none of these is where a value or a mark stands. -/
theorem skipLines_of_ne {c : Char} (hblank : isBlank c = false) (hnewline : c ≠ '\n')
    (hreturn : c ≠ '\r') (hcomment : c ≠ '#') (cs : List Char) :
    skipLines false (c :: cs) = some (c :: cs) := by
  rw [skipLines, if_neg hnewline, if_neg hreturn, if_neg (by decide), if_neg (by simp [hblank]),
    if_neg hcomment]

theorem EndsText.of_head {c : Char} (hdouble : c ≠ '"') (hsingle : c ≠ '\'') (cs : List Char) :
    EndsText (c :: cs) := by
  intro d hd
  obtain rfl : c = d := Option.some.inj hd
  exact ⟨hdouble, hsingle⟩

/-! ## Texts as values -/

/-- A written text begins with a quote. -/
theorem exists_writeText_eq_cons (s : String) :
    ∃ quote cs, writeText s = quote :: cs ∧ (quote = '"' ∨ quote = '\'') := by
  rw [writeText]
  cases quotingOf s.toList with
  | basic => exact ⟨'"', _, rfl, Or.inl rfl⟩
  | literal => exact ⟨'\'', _, rfl, Or.inr rfl⟩
  | basicLines => exact ⟨'"', _, rfl, Or.inl rfl⟩
  | literalLines => exact ⟨'\'', _, rfl, Or.inr rfl⟩

theorem value?_writeText (levels : Nat) (s : String) {rest : List Char} (hrest : EndsText rest) :
    value? levels (writeText s ++ rest) = some (.text s, rest) := by
  have htext := text?_writeText s hrest
  obtain ⟨quote, cs, hcs, rfl | rfl⟩ := exists_writeText_eq_cons s
  · rw [hcs] at htext ⊢
    rw [List.cons_append] at htext ⊢
    rw [value?, htext]
    rfl
  · rw [hcs] at htext ⊢
    rw [List.cons_append] at htext ⊢
    rw [value?, htext]
    rfl

/-- No white space and no mark stands before a written text. -/
theorem skipLines_writeText (s : String) (rest : List Char) :
    skipLines false (writeText s ++ rest) = some (writeText s ++ rest) := by
  obtain ⟨quote, cs, hcs, rfl | rfl⟩ := exists_writeText_eq_cons s
  · rw [hcs]
    exact skipLines_of_ne (by decide) (by decide) (by decide) (by decide) _
  · rw [hcs]
    exact skipLines_of_ne (by decide) (by decide) (by decide) (by decide) _

theorem skipBlanks_writeText (s : String) (rest : List Char) :
    skipBlanks (writeText s ++ rest) = writeText s ++ rest := by
  obtain ⟨quote, cs, hcs, rfl | rfl⟩ := exists_writeText_eq_cons s
  · rw [hcs]
    exact skipBlanks_of_not_blank (by decide) _
  · rw [hcs]
    exact skipBlanks_of_not_blank (by decide) _

/-! ## Lists of texts as values -/

/-- A written text is not the end of an array. -/
theorem writeText_append_ne (s : String) (rest ds : List Char) :
    writeText s ++ rest ≠ ']' :: ds := by
  intro h
  obtain ⟨quote, cs, hcs, rfl | rfl⟩ := exists_writeText_eq_cons s
  · rw [hcs] at h
    exact absurd (List.cons.inj h).1 (by decide)
  · rw [hcs] at h
    exact absurd (List.cons.inj h).1 (by decide)

section

variable {item : Reader Value} {bound : Nat} {cs next rest rest' : List Char} {v : Value}

/-- The end of an array. -/
theorem items?_end (h : skipLines false cs = some (']' :: rest)) :
    items? item (bound + 1) cs = some ([], rest) := by
  rw [items?, h]
  rfl

/-- The last item of an array, with no comma after it. -/
theorem items?_last (hskip : skipLines false cs = some next) (hnext : ∀ ds, next ≠ ']' :: ds)
    (hitem : item next = some (v, rest)) (hrest : skipLines false rest = some (']' :: rest')) :
    items? item (bound + 1) cs = some ([v], rest') := by
  rw [items?, hskip]
  simp [hitem, hrest]

/-- An item of an array, with a comma after it. -/
theorem items?_item (hskip : skipLines false cs = some next) (hnext : ∀ ds, next ≠ ']' :: ds)
    (hitem : item next = some (v, rest)) (hrest : skipLines false rest = some (',' :: rest')) :
    items? item (bound + 1) cs =
      (items? item bound rest').map fun (vs, cs) => (v :: vs, cs) := by
  rw [items?, hskip]
  simp [hitem, hrest]
  cases items? item bound rest' <;> rfl

end

/-- The items of a list of texts, each on its own line. -/
theorem items?_lines (levels : Nat) (texts : List String) (rest : List Char) {bound : Nat}
    (hbound : texts.length < bound) :
    items? (value? levels) bound
        ('\n' :: texts.flatMap (fun s => [' ', ' ', ' ', ' '] ++ writeText s ++ [',', '\n']) ++
          ']' :: rest) =
      some (texts.map .text, rest) := by
  obtain ⟨bound, rfl⟩ := Nat.exists_eq_add_one_of_ne_zero (Nat.ne_zero_of_lt hbound)
  induction texts generalizing bound with
  | nil => exact items?_end rfl
  | cons s texts ih =>
      have hmore : texts.length < bound := Nat.lt_of_succ_lt_succ hbound
      obtain ⟨bound, rfl⟩ := Nat.exists_eq_add_one_of_ne_zero (Nat.ne_zero_of_lt hmore)
      -- what stands after the comma is the same for one item less
      generalize hlines : '\n' ::
        texts.flatMap (fun s => [' ', ' ', ' ', ' '] ++ writeText s ++ [',', '\n']) ++
          ']' :: rest = lines at ih
      have hwritten : '\n' ::
          (s :: texts).flatMap (fun s => [' ', ' ', ' ', ' '] ++ writeText s ++ [',', '\n']) ++
            ']' :: rest =
          '\n' :: ' ' :: ' ' :: ' ' :: ' ' :: (writeText s ++ ',' :: lines) := by
        simp [← hlines]
      have hskip : skipLines false
          ('\n' :: ' ' :: ' ' :: ' ' :: ' ' :: (writeText s ++ ',' :: lines)) =
            some (writeText s ++ ',' :: lines) := skipLines_writeText s _
      have htext : value? levels (writeText s ++ ',' :: lines) = some (.text s, ',' :: lines) :=
        value?_writeText levels s (.of_head (by decide) (by decide) lines)
      rw [hwritten, items?_item hskip (writeText_append_ne s _) htext rfl, ih bound hmore]
      rfl

/-- Every item has a line, so the length of the text bounds their number. -/
theorem length_le_length_lines (texts : List String) :
    texts.length ≤
      (texts.flatMap fun s => [' ', ' ', ' ', ' '] ++ writeText s ++ [',', '\n']).length := by
  induction texts with
  | nil => exact Nat.le_refl _
  | cons s texts ih =>
      simp only [List.flatMap_cons, List.length_append, List.length_cons, List.length_nil]
      omega

/-- **A list of texts reads back**, on one line or on several. -/
theorem value?_writeTexts (levels : Nat) (texts : List String) (rest : List Char) :
    value? (levels + 1) (writeTexts texts ++ rest) = some (.array (texts.map .text), rest) := by
  have harray : ∀ cs, value? (levels + 1) ('[' :: cs) = array? (value? levels) cs := by
    intro cs
    rw [value?]
  match texts with
  | [] =>
      show value? (levels + 1) ('[' :: ']' :: rest) = _
      rw [harray, array?, items?_end rfl]
      rfl
  | [only] =>
      have htext : value? levels (writeText only ++ ']' :: rest) =
          some (.text only, ']' :: rest) :=
        value?_writeText levels only (.of_head (by decide) (by decide) rest)
      have hwritten : writeTexts [only] ++ rest = '[' :: (writeText only ++ ']' :: rest) := by
        simp [writeTexts]
      rw [hwritten, harray, array?, items?_last (skipLines_writeText only _)
        (writeText_append_ne only _) htext rfl]
      rfl
  | first :: second :: texts =>
      have hwritten : writeTexts (first :: second :: texts) ++ rest = '[' :: ('\n' ::
          (first :: second :: texts).flatMap
            (fun s => [' ', ' ', ' ', ' '] ++ writeText s ++ [',', '\n']) ++ ']' :: rest) := by
        simp [writeTexts]
      rw [hwritten, harray, array?, items?_lines]
      · rfl
      · have h := length_le_length_lines (first :: second :: texts)
        simp only [List.length_append, List.length_cons] at h ⊢
        omega

theorem skipBlanks_writeTexts (texts : List String) (rest : List Char) :
    skipBlanks (writeTexts texts ++ rest) = writeTexts texts ++ rest := by
  match texts with
  | [] => rfl
  | [_] => rfl
  | _ :: _ :: _ => rfl

/-! ## Keys -/

/-- The keys that stand without quotes. -/
def IsBare (key : String) : Prop := key.toList ≠ [] ∧ ∀ c ∈ key.toList, isKeyChar c = true

instance (key : String) : Decidable (IsBare key) :=
  @instDecidableAnd _ _ _ (List.decidableBAll (fun c => isKeyChar c = true) key.toList)

/-- A character of a bare key is none that something else begins with. -/
theorem ne_of_isKeyChar {c d : Char} (hc : isKeyChar c = true) (hd : isKeyChar d = false) :
    c ≠ d := by
  rintro rfl
  rw [hc] at hd
  exact nomatch hd

theorem isBlank_of_isKeyChar {c : Char} (hc : isKeyChar c = true) : isBlank c = false := by
  have hspace : c ≠ ' ' := ne_of_isKeyChar hc (by decide)
  have htab : c ≠ '\t' := ne_of_isKeyChar hc (by decide)
  simp [isBlank, hspace, htab]

section

variable {key : String} (hkey : IsBare key)
include hkey

theorem keyPart?_bare {d : Char} (hd : isKeyChar d = false) (rest : List Char) :
    keyPart? (key.toList ++ d :: rest) = some (key, d :: rest) := by
  obtain ⟨hne, hall⟩ := hkey
  have htake : (key.toList ++ d :: rest).takeWhile isKeyChar = key.toList := by
    rw [List.takeWhile_append_of_pos hall, List.takeWhile_cons_of_neg (by simp [hd]),
      List.append_nil]
  have hdrop : (key.toList ++ d :: rest).dropWhile isKeyChar = d :: rest := by
    rw [List.dropWhile_append_of_pos hall, List.dropWhile_cons_of_neg (by simp [hd])]
  obtain ⟨c, cs, hcs⟩ := List.exists_cons_of_ne_nil hne
  have hc : isKeyChar c = true := hall c (by simp [hcs])
  have hstring : String.ofList (c :: cs) = key := by rw [← hcs, String.ofList_toList]
  rw [hcs, List.cons_append] at htake hdrop ⊢
  rw [keyPart?, htake, hdrop, hstring]
  · rfl
  · intro cs h
    exact ne_of_isKeyChar hc (by decide) (List.cons.inj h).1
  · intro cs h
    exact ne_of_isKeyChar hc (by decide) (List.cons.inj h).1

/-- A bare key, followed by blanks and then by something that is no dot. -/
theorem key?_bare {d : Char} (hd : isKeyChar d = false) {rest : List Char} {e : Char}
    {more : List Char} (hrest : skipBlanks (d :: rest) = e :: more) (he : e ≠ '.') :
    key? (key.toList ++ d :: rest) = some (([], key), e :: more) := by
  have hskip : skipBlanks (key.toList ++ d :: rest) = key.toList ++ d :: rest := by
    obtain ⟨c, cs, hcs⟩ := List.exists_cons_of_ne_nil hkey.1
    have hc : isKeyChar c = true := hkey.2 c (by simp [hcs])
    rw [hcs]
    exact skipBlanks_of_not_blank (isBlank_of_isKeyChar hc) _
  have hparts : keyParts? maxLevels (key.toList ++ d :: rest) = some ([key], e :: more) := by
    rw [maxLevels, keyParts?, hskip, keyPart?_bare hkey hd]
    simp [hrest, he]
  rw [key?, hparts]
  rfl

end

/-! ## Statements -/

/-- A line that is not blank and no comment is a statement. -/
theorem statements_line {c : Char} (hblank : isBlank c = false) (hnewline : c ≠ '\n')
    (hreturn : c ≠ '\r') (hcomment : c ≠ '#') {cs rest : List Char} {line : Statement}
    (h : statement? (c :: cs) = some (line, rest)) (bound : Nat) :
    statements (bound + 1) (c :: cs) = (statements bound rest).map (line :: ·) := by
  rw [statements, skipBlanks_of_not_blank hblank]
  simp [hnewline, hreturn, hcomment, h]
  cases statements bound rest <;> rfl

section

variable {key : String} (hkey : IsBare key)
include hkey

/-- The header of a table with a bare key. -/
theorem statements_header (rest : List Char) (bound : Nat) :
    statements (bound + 1) ('[' :: (key.toList ++ ']' :: '\n' :: rest)) =
      (statements bound rest).map (.table [] key :: ·) := by
  refine statements_line (by decide) (by decide) (by decide) (by decide) ?_ bound
  have hkey? : key? (key.toList ++ ']' :: '\n' :: rest) =
      some (([], key), ']' :: '\n' :: rest) := key?_bare hkey (by decide) rfl (by decide)
  obtain ⟨c, cs, hcs⟩ := List.exists_cons_of_ne_nil hkey.1
  have hc : isKeyChar c = true := hkey.2 c (by simp [hcs])
  rw [statement?, hkey?]
  · rfl
  · intro ds h
    rw [hcs] at h
    exact ne_of_isKeyChar hc (by decide) (List.cons.inj h).1

/-- A bare key with its value. -/
theorem statements_define {cs rest : List Char} {v : Value} (hblank : skipBlanks cs = cs)
    (hv : value? maxLevels cs = some (v, '\n' :: rest)) (bound : Nat) :
    statements (bound + 1) (key.toList ++ ' ' :: '=' :: ' ' :: cs) =
      (statements bound rest).map (.define [] key v :: ·) := by
  have hkey? : key? (key.toList ++ ' ' :: '=' :: ' ' :: cs) =
      some (([], key), '=' :: ' ' :: cs) := key?_bare hkey (by decide) rfl (by decide)
  have hpair : pair? (value? maxLevels) (key.toList ++ ' ' :: '=' :: ' ' :: cs) =
      some (([], key, v), '\n' :: rest) := by
    have hvalue : skipBlanks (' ' :: cs) = cs := hblank
    rw [pair?, hkey?]
    simp [hvalue, hv]
  obtain ⟨c, key', hcs⟩ := List.exists_cons_of_ne_nil hkey.1
  have hc : isKeyChar c = true := hkey.2 c (by simp [hcs])
  have hbracket : c ≠ '[' := ne_of_isKeyChar hc (by decide)
  rw [hcs, List.cons_append] at hpair ⊢
  refine statements_line (isBlank_of_isKeyChar hc) (ne_of_isKeyChar hc (by decide))
    (ne_of_isKeyChar hc (by decide)) (ne_of_isKeyChar hc (by decide)) ?_ bound
  rw [statement?]
  · rw [hpair]
    rfl
  · intro ds h
    exact hbracket (List.cons.inj h).1
  · intro ds h
    exact hbracket (List.cons.inj h).1

end

end CaskLint.Toml
