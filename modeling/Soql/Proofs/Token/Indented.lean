/-
  Indentation — tabs put after every line feed of a text.

  Indentation works on text, whatever the text is made of.  On pieces it adds
  blanks between tokens, and it changes the string literals that hold a line
  feed.

  * `indented n t`: the text with `n` tabs after every line feed.
  * `indented_eq_self_iff`: only a text without line feeds stays the same.
  * `indentAll`: the same on pieces.
-/
import Mathlib
import Soql.Proofs.Token.Pieces

namespace Soql

open Unicode Token

/-! ## Texts -/

/-- The text with `n` tabs after every line feed. -/
def indented (n : Nat) (t : Text) : Text :=
  t.flatMap fun c => if c = '\n' then '\n' :: List.replicate n '\t' else [c]

@[simp] theorem indented_nil (n : Nat) : indented n [] = [] := rfl

theorem indented_cons (n : Nat) (c : Char) (t : Text) : indented n (c :: t) =
    (if c = '\n' then '\n' :: List.replicate n '\t' else [c]) ++ indented n t := rfl

@[simp] theorem indented_append (n : Nat) (t u : Text) :
    indented n (t ++ u) = indented n t ++ indented n u := List.flatMap_append

theorem indented_of_not_mem {t : Text} (h : '\n' ∉ t) (n : Nat) : indented n t = t := by
  induction t with
  | nil => rfl
  | cons c t ih =>
    rw [List.mem_cons, not_or] at h
    rw [indented_cons, if_neg (Ne.symm h.1), ih h.2, List.singleton_append]

@[simp] theorem indented_zero (t : Text) : indented 0 t = t := by
  induction t with
  | nil => rfl
  | cons c t ih =>
    rw [indented_cons, ih]
    split
    · simp [*]
    · rfl

theorem indented_replicate_tab (n m : Nat) :
    indented n (List.replicate m '\t') = List.replicate m '\t' :=
  indented_of_not_mem (by simp [List.mem_replicate]) n

@[simp] theorem indented_indented (n m : Nat) (t : Text) :
    indented n (indented m t) = indented (n + m) t := by
  induction t with
  | nil => rfl
  | cons c t ih =>
    rw [indented_cons m, indented_append, ih, indented_cons (n + m)]
    by_cases h : c = '\n'
    · simp only [h, if_true, indented_cons, indented_replicate_tab, List.cons_append,
        List.replicate_add]
    · simp only [h, if_false, indented_cons, indented_nil, List.append_nil]

theorem length_indented (n : Nat) (t : Text) :
    (indented n t).length = t.length + n * t.count '\n' := by
  induction t with
  | nil => simp
  | cons c t ih =>
    rw [indented_cons, List.length_append, ih, List.count_cons]
    by_cases h : c = '\n'
    · simp only [h, if_true, List.length_cons, List.length_replicate, beq_self_eq_true]
      ring
    · simp only [h, if_false, List.length_cons, List.length_nil, beq_iff_eq]
      ring

/-- **Indentation changes exactly the texts that hold a line feed.** -/
theorem indented_eq_self_iff {n : Nat} {t : Text} : indented n t = t ↔ n = 0 ∨ '\n' ∉ t := by
  constructor
  · intro h
    have hl := congrArg List.length h
    rw [length_indented] at hl
    have : n * t.count '\n' = 0 := by omega
    rcases Nat.mul_eq_zero.1 this with hn | hc
    · exact Or.inl hn
    · exact Or.inr (List.count_eq_zero.1 hc)
  · rintro (rfl | h)
    · exact indented_zero t
    · exact indented_of_not_mem h n

/-! ## Tokens -/

theorem readString_tabs (n : Nat) (t : Text) : readString (List.replicate n '\t' ++ t) =
    (readString t).map fun (inside, after) => (List.replicate n '\t' ++ inside, after) := by
  induction n with
  | zero => cases h : readString t <;> simp [h]
  | succ n ih =>
    rw [List.replicate_succ, List.cons_append, readString, ih]
    · cases readString t <;> rfl
    all_goals simp

theorem readString_indented {n : Nat} {t s r : Text} (h : readString t = some (s, r)) :
    readString (indented n s ++ '\'' :: r) = some (indented n s, r) := by
  fun_induction readString t generalizing s r with
  | case1 => simp at h
  | case2 t =>
    simp only [Option.some.injEq, Prod.mk.injEq] at h
    obtain ⟨rfl, rfl⟩ := h
    simp [readString]
  | case3 => simp at h
  | case4 c t ih =>
    obtain ⟨⟨s', r'⟩, hs, heq⟩ := Option.map_eq_some_iff.1 h
    obtain ⟨rfl, rfl⟩ := Prod.mk.inj heq
    have := ih hs
    by_cases hc : c = '\n'
    · simp [indented_cons, hc, readString, readString_tabs, this]
    · simp [indented_cons, hc, readString, this]
  | case5 c t hq hb hbs ih =>
    obtain ⟨⟨s', r'⟩, hs, heq⟩ := Option.map_eq_some_iff.1 h
    obtain ⟨rfl, rfl⟩ := Prod.mk.inj heq
    have := ih hs
    by_cases hc : c = '\n'
    · simp [indented_cons, hc, readString, readString_tabs, this]
    · have hbc : c ≠ '\\' := by
        rintro rfl
        cases t with
        | nil => exact hb rfl rfl
        | cons d t => exact hbs d t rfl rfl
      rw [indented_cons, if_neg hc, List.singleton_append, List.cons_append, readString, this]
      · rfl
      all_goals simp_all

/-- The token with its literal indented. -/
def Token.indent (n : Nat) : Token → Token
  | .string s => .string (indented n s)
  | t => t

theorem Token.Proper.indent {t : Token} (h : t.Proper) (n : Nat) : (t.indent n).Proper := by
  cases t with
  | string s => exact heads_string_iff.2 (readString_indented (heads_string_iff.1 h))
  | _ => exact h

theorem Token.Proper.spelling_indent {t : Token} (h : t.Proper) (n : Nat) :
    (t.indent n).spelling = indented n t.spelling := by
  have plain : t.literal? = none → indented n t.spelling = t.spelling := by
    intro hl
    refine indented_of_not_mem (fun hm => ?_) n
    exact absurd (h.isBlank_of_mem hl _ hm) (by decide)
  cases t with
  | string s => simp [Token.indent, spelling, indented_cons]
  | _ => exact (plain rfl).symm

theorem Token.literal?_indent (t : Token) (n : Nat) :
    (t.indent n).literal? = t.literal?.map (indented n) := by
  cases t <;> rfl

theorem Token.goesOn_indent (t : Token) (n : Nat) (x r : Text) :
    (t.indent n).goesOn (indented n x ++ r) = t.goesOn (x ++ r) := by
  have h : (t.indent n).goesOn (indented n x ++ r) = t.goesOn (indented n x ++ r) := by
    cases t <;> rfl
  rw [h]
  match x with
  | [] => rfl
  | [c] =>
    by_cases hc : c = '\n'
    · rw [hc, List.singleton_append, goesOn_of_clean t (clean_cons (by decide) r),
        indented_cons, if_pos rfl, List.cons_append, List.cons_append]
      exact goesOn_of_clean t (clean_cons (by decide) _)
    · rw [indented_cons, if_neg hc, indented_nil, List.append_nil]
  | c :: d :: x =>
    by_cases hc : c = '\n'
    · rw [hc, List.cons_append, goesOn_of_clean t (clean_cons (by decide) _),
        indented_cons, if_pos rfl, List.cons_append, List.cons_append]
      exact goesOn_of_clean t (clean_cons (by decide) _)
    · rw [indented_cons, if_neg hc, indented_cons]
      by_cases hd : d = '\n'
      · rw [hd, if_pos rfl]
        exact goesOn_two t c '\n' _ _
      · rw [if_neg hd]
        exact goesOn_two t c d _ _

/-! ## Pieces -/

/-- A tab. -/
def Piece.tab : Piece := .blank '\t' (by decide)

/-- A piece with tabs after its line feeds. -/
def Piece.indent (n : Nat) : Piece → List Piece
  | .blank c h => .blank c h :: if c = '\n' then List.replicate n .tab else []
  | .token t h => [.token (t.indent n) (h.indent n)]

/-- Pieces with tabs after every line feed. -/
def indentAll (n : Nat) (ps : List Piece) : List Piece := ps.flatMap (Piece.indent n)

section IndentAll

variable {ps bs : List Piece} {n : Nat}

@[simp] theorem indentAll_nil (n : Nat) : indentAll n [] = [] := rfl

@[simp] theorem indentAll_append (n : Nat) (ps qs : List Piece) :
    indentAll n (ps ++ qs) = indentAll n ps ++ indentAll n qs := List.flatMap_append

theorem indentAll_cons (n : Nat) (p : Piece) (ps : List Piece) :
    indentAll n (p :: ps) = p.indent n ++ indentAll n ps := rfl

theorem blank_replicate_tab (n : Nat) : Blank (List.replicate n .tab) := by
  intro p hp
  rw [List.eq_of_mem_replicate hp]
  rfl

theorem Blank.indentAll (h : Blank bs) (n : Nat) : Blank (indentAll n bs) := by
  induction h with
  | nil => exact blank_nil
  | cons c hc _ ih =>
    rw [indentAll_cons, Piece.indent, List.cons_append, blank_cons, blank_append]
    refine ⟨rfl, ?_, ih⟩
    split
    · exact blank_replicate_tab n
    · exact blank_nil

theorem spell_replicate_tab (n : Nat) : spell (List.replicate n .tab) = List.replicate n '\t' := by
  induction n with
  | zero => rfl
  | succ n ih =>
    rw [List.replicate_succ, spell_cons, ih, List.replicate_succ]
    rfl

theorem spell_indentAll (n : Nat) (ps : List Piece) :
    spell (indentAll n ps) = indented n (spell ps) := by
  induction ps with
  | nil => rfl
  | cons p ps ih =>
    rw [indentAll_cons, spell_append, ih, spell_cons, indented_append]
    congr 1
    cases p with
    | blank c hc =>
      by_cases h : c = '\n'
      · simp [Piece.indent, h, indented_cons, spell_replicate_tab]
      · simp [Piece.indent, h, indented_cons]
    | token t ht => simp [Piece.indent, ht.spelling_indent]

theorem literals_indentAll (n : Nat) (ps : List Piece) :
    literals (indentAll n ps) = (literals ps).map (indented n) := by
  induction ps with
  | nil => rfl
  | cons p ps ih =>
    rw [indentAll_cons, literals_append, ih]
    cases p with
    | blank c hc =>
      by_cases h : c = '\n'
      · simp [Piece.indent, h, (blank_replicate_tab n).literals]
      · simp [Piece.indent, h]
    | token t ht =>
      rw [Piece.indent, literals_token, literals_token, Token.literal?_indent]
      cases t.literal? <;> simp

theorem count_indentAll (n : Nat) (ps : List Piece) : count (indentAll n ps) = count ps := by
  induction ps with
  | nil => rfl
  | cons p ps ih =>
    rw [indentAll_cons, count_append, ih]
    cases p with
    | blank c hc =>
      by_cases h : c = '\n'
      · simp [Piece.indent, h, (blank_replicate_tab n).count]
      · simp [Piece.indent, h]
    | token t ht =>
      rw [Piece.indent, count_token, count_token, count_nil]
      omega

theorem Fits.indentAll {r : Text} (h : Fits ps r) (n : Nat) : Fits (indentAll n ps) r := by
  induction ps with
  | nil => trivial
  | cons p ps ih =>
    rw [indentAll_cons, fits_append]
    cases p with
    | blank c hc =>
      refine ⟨?_, ih h⟩
      refine Blank.fits ?_ _
      rw [Piece.indent, blank_cons]
      refine ⟨rfl, ?_⟩
      split
      · exact blank_replicate_tab n
      · exact blank_nil
    | token t ht =>
      refine ⟨⟨?_, trivial⟩, ih h.2⟩
      rw [spell_nil, List.nil_append, spell_indentAll, Token.goesOn_indent]
      exact h.1

theorem Closed.indentAll (h : Closed ps) (n : Nat) : Closed (indentAll n ps) :=
  fun r hr => (h r hr).indentAll n

@[simp] theorem indentAll_zero (ps : List Piece) : indentAll 0 ps = ps := by
  induction ps with
  | nil => rfl
  | cons p ps ih =>
    rw [indentAll_cons, ih]
    cases p with
    | blank c hc => simp [Piece.indent]
    | token t ht => cases t <;> simp [Piece.indent, Token.indent]

/-- Pieces without a line feed stay the same. -/
theorem indentAll_of_not_mem (h : '\n' ∉ spell ps) (n : Nat) : indentAll n ps = ps := by
  induction ps with
  | nil => rfl
  | cons p ps ih =>
    rw [spell_cons, List.mem_append, not_or] at h
    rw [indentAll_cons, ih h.2]
    cases p with
    | blank c hc =>
      rw [Piece.text_blank, List.mem_singleton] at h
      simp [Piece.indent, Ne.symm h.1]
    | token t ht =>
      cases t with
      | string s =>
        have hs : '\n' ∉ s := fun hm => h.1 (by simp [spelling, hm])
        simp [Piece.indent, Token.indent, indented_of_not_mem hs]
      | _ => rfl

theorem indentAll_indentAll (n m : Nat) (ps : List Piece) :
    indentAll n (indentAll m ps) = indentAll (n + m) ps := by
  induction ps with
  | nil => rfl
  | cons p ps ih =>
    rw [indentAll_cons, indentAll_append, ih, indentAll_cons]
    congr 1
    cases p with
    | blank c hc =>
      by_cases h : c = '\n'
      · have htabs : indentAll n (List.replicate m .tab) = List.replicate m .tab := by
          refine indentAll_of_not_mem ?_ n
          rw [spell_replicate_tab]
          simp [List.mem_replicate]
        simp [Piece.indent, h, indentAll_cons, htabs]
      · simp [Piece.indent, h, indentAll_cons]
    | token t ht => cases t <;> simp [Piece.indent, indentAll_cons, Token.indent]

theorem inView_indentAll (n : Nat) (ps : List Piece) :
    inView (indentAll n ps) = (inView ps).indent n := by
  induction ps with
  | nil => rfl
  | cons p ps ih =>
    rw [indentAll_cons]
    cases p with
    | blank c hc =>
      rw [Piece.indent, List.cons_append, inView_blank]
      split
      · rw [(blank_replicate_tab n).inView_append, ih]
        rfl
      · exact ih
    | token t ht => rfl

theorem inView_indentAll_append (h : inView ps ≠ .finish) (n : Nat) (qs : List Piece) :
    inView (indentAll n ps ++ qs) = (inView ps).indent n := by
  rw [inView_append, inView_indentAll]
  rw [inView_indentAll]
  cases ht : inView ps <;> simp_all [Token.indent]

end IndentAll

end Soql
