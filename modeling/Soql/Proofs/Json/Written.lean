/-
  JSON texts that were written are read back.

  The reader sorts the members of objects, and gives up where more arrays and
  objects lie inside of one another than it was told.  Apart from that it
  finds the value that was written, with or without blanks.

  * `Tidy v`: numbers are natural numbers of 64 bits, and the keys of each
    object differ.
  * `within n v`: what is read for `v` where `n` arrays and objects may lie
    inside of one another.
  * `read_render`, `read_renderPretty`: a value is read back from its text.
-/
import Mathlib
import Soql.Json.Read
import Soql.Json.Write
import Soql.Proofs.Parse.Rows

namespace Soql.Json

/-! ## Strings -/

theorem hexValue_digitChar : ∀ d < 16, hexValue? (Nat.digitChar d) = some d := by decide

/-- An escape of one letter. -/
theorem readString_simpleEscape {c d : Char} (h : simpleEscape? d = some c) (hd : d ≠ 'u')
    (t : Text) : readString ('\\' :: d :: t) = (readString t).map fun r => (c :: r.1, r.2) := by
  have hread : readStringAfter none ('\\' :: d :: t) = (simpleEscape? d).bind fun a =>
      (readStringAfter none t).bind fun r => some (a :: r.1, r.2) := by
    rw [readStringAfter]
    · rfl
    · intro _ _ _ _ _ h
      exact absurd h hd
  rw [readString, hread, h]
  exact Option.map_eq_bind.symm

/-- A control character, by its number. -/
theorem readString_control {c : Char} (h : c < ' ') (t : Text) :
    readString ('\\' :: 'u' :: '0' :: '0' :: Nat.digitChar (c.toNat / 16) ::
      Nat.digitChar (c.toNat % 16) :: t) = (readString t).map fun r => (c :: r.1, r.2) := by
  have hc : c.toNat < 32 := h
  have hunit : hexUnit? '0' '0' (Nat.digitChar (c.toNat / 16)) (Nat.digitChar (c.toNat % 16)) =
      some c.toNat := by
    simp only [hexUnit?, hexValue_digitChar _ (show c.toNat / 16 < 16 by omega),
      hexValue_digitChar _ (show c.toNat % 16 < 16 by omega)]
    change some (0 * 256 + (c.toNat / 16 * 16 + c.toNat % 16)) = _
    congr 1
    omega
  have hlead : isLead c.toNat = false := by simp [isLead]; omega
  have htrail : isTrail c.toNat = false := by simp [isTrail]; omega
  rw [Option.map_eq_bind]
  simp [readString, readStringAfter, hunit, hlead, htrail, Function.comp_def]

/-- A character that stands for itself. -/
theorem readString_self {c : Char} (hq : c ≠ '"') (hs : c ≠ '\\') (hc : ¬ c < ' ') (t : Text) :
    readString (c :: t) = (readString t).map fun r => (c :: r.1, r.2) := by
  rw [readString, readStringAfter]
  · have hle : ' ' ≤ c := not_lt.1 hc
    simp only [hle, ne_eq, hs, not_false_eq_true, and_self, if_true]
    exact Option.map_eq_bind.symm
  · exact hq
  · intro _ _ _ _ _ h
    exact absurd h hs
  · intro _ _ h
    exact absurd h hs

theorem readString_escapeChar (c : Char) (t : Text) : readString (escapeChar c ++ t) =
    (readString t).map fun r => (c :: r.1, r.2) := by
  unfold escapeChar
  split_ifs with h1 h2 h3 h4 h5 h6 h7 h8
  · exact readString_simpleEscape (h1 ▸ rfl) (by decide) t
  · exact readString_simpleEscape (h2 ▸ rfl) (by decide) t
  · exact readString_simpleEscape (h3 ▸ rfl) (by decide) t
  · exact readString_simpleEscape (h4 ▸ rfl) (by decide) t
  · exact readString_simpleEscape (h5 ▸ rfl) (by decide) t
  · exact readString_simpleEscape (h6 ▸ rfl) (by decide) t
  · exact readString_simpleEscape (h7 ▸ rfl) (by decide) t
  · exact readString_control h8 t
  · exact readString_self h1 h2 h8 t

/-- **A string is read back from between its quotes.** -/
theorem readString_stringText (t rest : Text) :
    readString (t.flatMap escapeChar ++ '"' :: rest) = some (t, rest) := by
  induction t with
  | nil => rfl
  | cons c t ih => rw [List.flatMap_cons, List.append_assoc, readString_escapeChar, ih]; rfl

/-! ## Numbers -/

/-- What may follow a number: neither a digit nor a point nor an exponent. -/
def Ends (t : Text) : Prop :=
  Stops (fun c => c.isDigit || c == '.' || c == 'e' || c == 'E') t

theorem Ends.stops {t : Text} (h : Ends t) : Stops Char.isDigit t := by
  intro c hc
  have := h c hc
  simp only [Bool.or_eq_false_iff] at this
  exact this.1.1.1

theorem isDigit_of_mem_decimal {n : Nat} {c : Char} (h : c ∈ Text.decimal n) : c.isDigit = true :=
  Nat.isDigit_of_mem_toDigits (by decide) (by decide) h

/-- Only zero starts with a zero. -/
theorem decimal_head (n : Nat) :
    (Text.decimal n).length = 1 ∨ (Text.decimal n).head? ≠ some '0' := by
  induction n using Nat.strong_induction_on with
  | _ n ih =>
    by_cases hn : n < 10
    · left
      rw [Text.decimal, Nat.toDigits_of_lt_base hn, List.length_singleton]
    · right
      rw [Text.decimal, Nat.toDigits_of_base_le (by decide) (by omega), List.head?_append]
      have hne : (Nat.toDigits 10 (n / 10)).head? ≠ some '0' := by
        rcases ih (n / 10) (by omega) with h | h
        · by_cases hq : n / 10 < 10
          · rw [Nat.toDigits_of_lt_base hq, List.head?_cons]
            intro h0
            have := congrArg Char.toNat (Option.some.inj h0)
            rw [Nat.toNat_digitChar_of_lt_ten hq] at this
            simp at this
            omega
          · rw [Text.decimal, Nat.toDigits_of_base_le (by decide) (by omega)] at h
            have := Nat.length_toDigits_pos (b := 10) (n := n / 10 / 10)
            simp only [List.length_append, List.length_singleton] at h
            omega
        · exact h
      cases h : (Nat.toDigits 10 (n / 10)).head? with
      | none => simp [Nat.toDigits_ne_nil] at h
      | some c => rwa [h] at hne

/-- Digits of a number of 64 bits are all kept. -/
theorem absorb_eq {m : Nat} {ds : Text}
    (h : ds.foldl (fun n c => 10 * n + digitValue c) m < UInt64.size) :
    absorb m ds = (ds.foldl (fun n c => 10 * n + digitValue c) m, ds.length) := by
  induction ds generalizing m with
  | nil => rfl
  | cons c ds ih =>
    have hle (n : Nat) : n ≤ ds.foldl (fun n c => 10 * n + digitValue c) n := by
      clear ih h
      induction ds generalizing n with
      | nil => exact le_rfl
      | cons d ds ih => exact le_trans (by omega) (ih (10 * n + digitValue d))
    rw [List.foldl_cons] at h ⊢
    rw [absorb, if_pos (lt_of_le_of_lt (hle _) h), ih h, List.length_cons]

theorem absorb_decimal {n : Nat} (h : n < UInt64.size) :
    absorb 0 (Text.decimal n) = (n, (Text.decimal n).length) := by
  have hfold : (Text.decimal n).foldl (fun n c => 10 * n + digitValue c) 0 = n := by
    have := Nat.ofDigitChars_ten_toDigits (n := n)
    rwa [Nat.ofDigitChars_eq_foldl] at this
  rw [absorb_eq (by rwa [hfold]), hfold]

theorem readNumeral_decimal (n : Nat) {rest : Text} (h : Ends rest) :
    readNumeral (Text.decimal n ++ rest) = some (⟨false, Text.decimal n, none, none⟩, rest) := by
  obtain ⟨htake, hdrop⟩ := span_append (fun c => isDigit_of_mem_decimal (n := n)) h.stops
  obtain ⟨c, cs, hcs⟩ : ∃ c cs, Text.decimal n = c :: cs :=
    List.exists_cons_of_ne_nil Nat.toDigits_ne_nil
  have hguard : (!(Text.decimal n).isEmpty && ((Text.decimal n).length == 1 ||
      (Text.decimal n).head? != some '0')) = true := by
    have hempty : (Text.decimal n).isEmpty = false := by rw [hcs, List.isEmpty_cons]
    rcases decimal_head n with h | h <;> simp [h, hempty]
  unfold readNumeral
  split
  rename_i isNegative t hsign
  obtain ⟨rfl, rfl⟩ : isNegative = false ∧ t = Text.decimal n ++ rest := by
    split at hsign
    · rename_i heq
      rw [hcs, List.cons_append] at heq
      obtain ⟨rfl, -⟩ := List.cons.inj heq
      have hdigit : '-'.isDigit = true := isDigit_of_mem_decimal (n := n) (by simp [hcs])
      exact absurd hdigit (by decide)
    · cases hsign
      exact ⟨rfl, rfl⟩
  simp only [htake, hdrop, hguard, guard, if_true]
  cases rest with
  | nil => rfl
  | cons d r =>
    simp only [Ends, stops_cons, Bool.or_eq_false_iff, beq_eq_false_iff_ne] at h
    obtain ⟨⟨⟨-, hpoint⟩, he⟩, hE⟩ := h
    split
    · rename_i heq
      exact absurd (List.cons.inj heq).1 hpoint
    · simp only [Option.bind_eq_bind, Option.bind_some, Option.pure_def]
      split
      · rename_i heq
        exact absurd (List.cons.inj heq).1 he
      · rename_i heq
        exact absurd (List.cons.inj heq).1 hE
      · rfl

/-- **A natural number of 64 bits is read back from its digits.** -/
theorem readNumber_intText {i : Int} (hi : 0 ≤ i ∧ i < UInt64.size) {rest : Text} (h : Ends rest) :
    readNumber (intText i ++ rest) = some (int i, rest) := by
  obtain ⟨n, rfl⟩ := Int.eq_ofNat_of_zero_le hi.1
  have hn : n < UInt64.size := by omega
  have htext : intText n = Text.decimal n := by simp [intText]
  rw [htext, readNumber, readNumeral_decimal n h]
  simp [Numeral.value?, absorb_decimal hn]

/-! ## Lists -/

section Lists

variable {α β : Type} {close : Char} {element : Text → Option (α × Text)}

/-- Blanks of JSON text. -/
def AllBlank (b : Text) : Prop := ∀ c ∈ b, isJsonBlank c

theorem skipJsonBlanks_append {b t : Text} (hb : AllBlank b) (ht : Stops isJsonBlank t) :
    skipJsonBlanks (b ++ t) = t := (span_append hb ht).2

/-- An element that is written as `p`, where `o` is what is read for it. -/
structure Written (close : Char) (element : Text → Option (α × Text)) (p : Text) (o : Option α) :
    Prop where
  starts : ∃ c t, p = c :: t ∧ isJsonBlank c = false ∧ c ≠ close
  reads : ∀ rest, Ends rest → element (p ++ rest) = o.map (·, rest)

/-- A sign that closes a list. -/
def Closes (close : Char) : Prop := close = ']' ∨ close = '\x7d'

theorem Closes.spec (h : Closes close) : isJsonBlank close = false ∧ close ≠ ',' ∧
    ∀ t, Ends (close :: t) := by
  rcases h with rfl | rfl <;> exact ⟨rfl, by decide, fun _ => by simp [Ends]⟩

theorem ends_comma (t : Text) : Ends (',' :: t) := by simp [Ends]

/-- Blanks end a number, too. -/
theorem ends_append {b t : Text} (hb : AllBlank b) (ht : Ends t) : Ends (b ++ t) := by
  cases b with
  | nil => exact ht
  | cons c b =>
    have hc := hb c List.mem_cons_self
    simp only [isJsonBlank, Bool.or_eq_true, beq_iff_eq] at hc
    rcases hc with ((rfl | rfl) | rfl) | rfl <;> simp [Ends]

/-- The text of the elements after the first ends every number before it. -/
theorem ends_rest (hclose : Closes close) {b e : Text} (he : AllBlank e) (ps : List Text)
    (rest : Text) : Ends (ps.flatMap (fun p => ',' :: (b ++ p)) ++ (e ++ close :: rest)) := by
  cases ps with
  | nil =>
    rw [List.flatMap_nil, List.nil_append]
    exact ends_append he (hclose.spec.2.2 rest)
  | cons p ps => exact ends_comma _

theorem readRest_written (hclose : Closes close) {ps : List Text} {os : List (Option α)}
    (h : List.Forall₂ (Written close element) ps os) {b e : Text} (hb : AllBlank b)
    (he : AllBlank e) (rest : Text) {n : Nat} (hn : ps.length < n) :
    readRest close element n (ps.flatMap (fun p => ',' :: (b ++ p)) ++ (e ++ close :: rest)) =
      (os.mapM id).map (·, rest) := by
  obtain ⟨hblank, hcomma, -⟩ := hclose.spec
  induction h generalizing n with
  | nil =>
    obtain ⟨n, rfl⟩ : ∃ m, n = m + 1 := ⟨n - 1, by simp at hn; omega⟩
    rw [readRest, List.flatMap_nil, List.nil_append,
      skipJsonBlanks_append he (by simpa using hblank)]
    split
    · rename_i heq
      exact absurd (List.cons.inj heq).1 hcomma
    · rename_i heq
      obtain ⟨rfl, rfl⟩ := List.cons.inj heq
      rw [if_pos rfl]
      rfl
    · contradiction
  | @cons p o ps os hp hps ih =>
    obtain ⟨n, rfl⟩ : ∃ m, n = m + 1 := ⟨n - 1, by omega⟩
    obtain ⟨c, t, hct, hc, -⟩ := hp.starts
    have hskip : skipJsonBlanks (b ++ (p ++
        (ps.flatMap (fun p => ',' :: (b ++ p)) ++ (e ++ close :: rest)))) =
        p ++ (ps.flatMap (fun p => ',' :: (b ++ p)) ++ (e ++ close :: rest)) :=
      skipJsonBlanks_append hb (by rw [hct]; simpa using hc)
    have hcons : (p :: ps).flatMap (fun p => ',' :: (b ++ p)) ++ (e ++ close :: rest) =
        ',' :: (b ++ (p ++ (ps.flatMap (fun p => ',' :: (b ++ p)) ++ (e ++ close :: rest)))) := by
      simp
    rw [hcons, readRest]
    change (element (skipJsonBlanks _)).bind _ = _
    rw [hskip, hp.reads _ (ends_rest hclose he ps rest)]
    cases o with
    | none => rfl
    | some a =>
      change (readRest close element n _).bind _ = _
      rw [ih (by simpa using hn)]
      rw [List.mapM_cons]
      change _ = Option.map _ ((List.mapM id os).bind fun as => some (a :: as))
      cases List.mapM id os <;> rfl

theorem readList_written (hclose : Closes close) {ps : List Text} {os : List (Option α)}
    (h : List.Forall₂ (Written close element) ps os) {b e : Text} (hb : AllBlank b)
    (he : AllBlank e) (hne : ps = [] → e = []) (rest : Text) :
    readList close element ((if ps = [] then [] else b ++ Text.joinWith (',' :: b) ps) ++
      (e ++ close :: rest)) = (os.mapM id).map (·, rest) := by
  obtain ⟨hblank, hcomma, -⟩ := hclose.spec
  cases h with
  | nil =>
    rw [hne rfl, if_pos rfl, List.nil_append, List.nil_append, readList]
    have hskip : skipJsonBlanks (close :: rest) = close :: rest :=
      skipJsonBlanks_append (b := []) (by simp [AllBlank]) (by simpa using hblank)
    rw [hskip]
    simp only [if_true]
    rfl
  | @cons p o ps os hp hps =>
    obtain ⟨c, t, rfl, hc, hne⟩ := hp.starts
    rw [if_neg (by simp), joinWith_cons, List.append_assoc, List.append_assoc]
    have hflat : ps.flatMap (',' :: b ++ ·) = ps.flatMap fun p => ',' :: (b ++ p) := rfl
    rw [hflat, readList, skipJsonBlanks_append hb (by simpa using hc)]
    simp only [List.cons_append, hne, if_false]
    change (element (c :: t ++ _)).bind _ = _
    rw [hp.reads _ (ends_rest hclose he ps rest)]
    cases o with
    | none => rfl
    | some a =>
      change (readRest close element _ _).bind _ = _
      rw [readRest_written hclose hps hb he rest, List.mapM_cons]
      · change _ = Option.map _ ((List.mapM id os).bind fun as => some (a :: as))
        cases List.mapM id os <;> rfl
      · have hlen : ps.length ≤ (ps.flatMap fun p => ',' :: (b ++ p)).length := by
          have := List.length_le_sum_of_one_le (ps.map fun p => (',' :: (b ++ p)).length) (by simp)
          rwa [List.length_map, ← List.length_flatMap] at this
        simp only [List.length_append]
        omega

end Lists

/-! ## Values -/

mutual

/-- Numbers are natural numbers of 64 bits, and the keys of each object differ. -/
def Tidy : Json → Prop
  | int i => 0 ≤ i ∧ i < UInt64.size
  | real _ => False
  | arr items => TidyItems items
  | obj members => (members.map Prod.fst).Nodup ∧ TidyMembers members
  | _ => True

/-- All items are tidy. -/
def TidyItems : List Json → Prop
  | [] => True
  | item :: items => item.Tidy ∧ TidyItems items

/-- All values of members are tidy. -/
def TidyMembers : List (Text × Json) → Prop
  | [] => True
  | (_, value) :: members => value.Tidy ∧ TidyMembers members

end

/-- What is read for a value where at most `n` arrays and objects may lie inside of one another. -/
def within (n : Nat) (v : Json) : Option Json := if v.depth ≤ n then some v.sorted else none

theorem within_of_depth_eq_zero {v : Json} (h : v.depth = 0) (n : Nat) :
    within n v = some v.sorted := by
  rw [within, if_pos (by omega)]

theorem within_zero_of_pos {v : Json} (h : 0 < v.depth) : within 0 v = none := by
  rw [within, if_neg (by omega)]

theorem mapM_within_items (n : Nat) (items : List Json) : (items.map (within n)).mapM id =
    if depthOfItems items ≤ n then some (sortedItems items) else none := by
  induction items with
  | nil => rfl
  | cons v items ih =>
    rw [List.map_cons, List.mapM_cons, ih, depthOfItems, sortedItems, within]
    by_cases h1 : v.depth ≤ n <;> by_cases h2 : depthOfItems items ≤ n <;> simp [h1, h2]

theorem within_arr (n : Nat) (items : List Json) :
    within (n + 1) (arr items) = ((items.map (within n)).mapM id).map arr := by
  rw [mapM_within_items, within, depth, sorted]
  by_cases h : depthOfItems items ≤ n <;> simp [h]

theorem mapM_within_members (n : Nat) (members : List (Text × Json)) :
    (members.map fun m => (within n m.2).map (m.1, ·)).mapM id =
      if depthOfMembers members ≤ n then some (sortedValues members) else none := by
  induction members with
  | nil => rfl
  | cons m members ih =>
    rw [List.map_cons, List.mapM_cons, ih, depthOfMembers, sortedValues, within]
    by_cases h1 : m.2.depth ≤ n <;> by_cases h2 : depthOfMembers members ≤ n <;> simp [h1, h2]

theorem within_obj (n : Nat) (members : List (Text × Json)) : within (n + 1) (obj members) =
    ((members.map fun m => (within n m.2).map (m.1, ·)).mapM id).map
      fun ms => obj (sortMembers ms) := by
  rw [mapM_within_members, within, depth, sorted]
  by_cases h : depthOfMembers members ≤ n <;> simp [h]

/-- A value that starts with neither a bracket nor a brace is a scalar. -/
theorem readValue_scalar {c : Char} (h1 : c ≠ '[') (h2 : c ≠ '\x7b') (n : Nat) (t : Text) :
    readValue n (c :: t) = readScalar (c :: t) := by
  cases n with
  | zero => rfl
  | succ n =>
    rw [readValue]
    · intro _ h
      exact absurd (List.cons.inj h).1 h1
    · intro _ h
      exact absurd (List.cons.inj h).1 h2

theorem readScalar_digit {c : Char} (h : c.isDigit = true) (t : Text) :
    readScalar (c :: t) = readNumber (c :: t) := by
  have hne (d : Char) (hd : d.isDigit = false) : c ≠ d := by
    rintro rfl
    rw [h] at hd
    cases hd
  rw [readScalar]
  · intro _ h
    exact absurd (List.cons.inj h).1 (hne 'n' rfl)
  · intro _ h
    exact absurd (List.cons.inj h).1 (hne 't' rfl)
  · intro _ h
    exact absurd (List.cons.inj h).1 (hne 'f' rfl)
  · intro _ h
    exact absurd (List.cons.inj h).1 (hne '"' rfl)

/-- A value that is neither an array nor an object. -/
theorem written_scalar {v : Json} (hd : v.depth = 0) (hv : v.Tidy) (n : Nat) :
    Written ']' (readValue n) v.render (within n v) := by
  rw [within_of_depth_eq_zero hd]
  cases v with
  | null =>
    exact ⟨⟨'n', _, rfl, rfl, by decide⟩, fun _ _ =>
      readValue_scalar (by decide) (by decide) n _⟩
  | bool b =>
    cases b with
    | true =>
      exact ⟨⟨'t', _, rfl, rfl, by decide⟩, fun _ _ =>
        readValue_scalar (by decide) (by decide) n _⟩
    | false =>
      exact ⟨⟨'f', _, rfl, rfl, by decide⟩, fun _ _ =>
        readValue_scalar (by decide) (by decide) n _⟩
  | int i =>
    have htext : intText i = Text.decimal i.natAbs := by rw [intText, if_neg (by simpa using hv.1)]
    obtain ⟨c, cs, hcs⟩ : ∃ c cs, Text.decimal i.natAbs = c :: cs :=
      List.exists_cons_of_ne_nil Nat.toDigits_ne_nil
    have hc : c.isDigit = true := isDigit_of_mem_decimal (n := i.natAbs) (by simp [hcs])
    have hne (d : Char) (hd : d.isDigit = false) : c ≠ d := by
      rintro rfl
      rw [hc] at hd
      cases hd
    refine ⟨⟨c, cs, htext.trans hcs, ?_, hne ']' rfl⟩, fun rest hrest => ?_⟩
    · simp [isJsonBlank, hne ' ' rfl, hne '\n' rfl, hne '\t' rfl, hne '\r' rfl]
    · have hnum := readNumber_intText hv hrest
      rw [htext, hcs, List.cons_append] at hnum
      rw [render, htext, hcs, List.cons_append, readValue_scalar (hne '[' rfl) (hne '\x7b' rfl),
        readScalar_digit hc, hnum]
      rfl
  | real x => exact hv.elim
  | str t =>
    refine ⟨⟨'"', _, rfl, rfl, by decide⟩, fun rest _ => ?_⟩
    have hcons : render (str t) ++ rest = '"' :: (t.flatMap escapeChar ++ '"' :: rest) := by
      simp [render, stringText]
    rw [hcons, readValue_scalar (by decide) (by decide)]
    change (readString _).map _ = _
    rw [readString_stringText]
    rfl
  | arr items => simp [depth] at hd
  | obj members => simp [depth] at hd

/-- A text between brackets, with blanks `b` before each of the pieces and `e` after the last. -/
def enclosed (opening closing : Char) (b e : Text) (ps : List Text) : Text :=
  opening :: ((if ps = [] then [] else b ++ Text.joinWith (',' :: b) ps) ++ (e ++ [closing]))

/-- Brackets and braces are not read where nothing may lie inside of them. -/
theorem readValue_zero {c : Char} (h : c = '[' ∨ c = '\x7b') (t : Text) :
    readValue 0 (c :: t) = none := by
  rcases h with rfl | rfl <;> rfl

theorem written_arr {items : List Json} {ps : List Text} {b e : Text}
    (h : ∀ n, List.Forall₂ (fun p v => Written ']' (readValue n) p (within n v)) ps items)
    (hb : AllBlank b) (he : AllBlank e) (hne : ps = [] → e = []) (n : Nat) :
    Written ']' (readValue n) (enclosed '[' ']' b e ps) (within n (arr items)) := by
  refine ⟨⟨'[', _, rfl, rfl, by decide⟩, fun rest _ => ?_⟩
  cases n with
  | zero =>
    rw [within_zero_of_pos (by simp [depth])]
    exact readValue_zero (Or.inl rfl) _
  | succ n =>
    have hps := List.forall₂_map_right_iff.2 (h n)
    have hlist := readList_written (Or.inl rfl) hps hb he hne rest
    rw [within_arr, Option.map_map]
    simp only [enclosed, List.cons_append, List.append_assoc, List.nil_append, readValue]
    rw [hlist, Option.map_map]
    rfl

/-- A member of an object, with blanks after its colon. -/
theorem written_member {key p b : Text} {v : Json} {n : Nat}
    (h : Written ']' (readValue n) p (within n v)) (hb : AllBlank b) :
    Written '\x7d' (readMember (readValue n)) (stringText key ++ (':' :: b) ++ p)
      ((within n v).map (key, ·)) := by
  refine ⟨⟨'"', _, rfl, rfl, by decide⟩, fun rest hrest => ?_⟩
  obtain ⟨c, t, hct, hc, -⟩ := h.starts
  have htext : stringText key ++ (':' :: b) ++ p ++ rest =
      '"' :: (key.flatMap escapeChar ++ '"' :: ':' :: (b ++ (p ++ rest))) := by
    simp [stringText]
  have hskip : skipJsonBlanks (b ++ (p ++ rest)) = p ++ rest :=
    skipJsonBlanks_append hb (by rw [hct]; simpa using hc)
  have hcolon : skipJsonBlanks (':' :: (b ++ (p ++ rest))) = ':' :: (b ++ (p ++ rest)) := rfl
  rw [htext]
  simp only [readMember, readString_stringText, Option.bind_eq_bind, Option.bind_some, hcolon,
    hskip, h.reads rest hrest]
  cases within n v <;> rfl

theorem written_obj {members : List (Text × Json)} {ps : List Text} {b e : Text}
    (h : ∀ n, List.Forall₂ (fun p m => Written '\x7d' (readMember (readValue n)) p
      ((within n m.2).map (m.1, ·))) ps members)
    (hb : AllBlank b) (he : AllBlank e) (hne : ps = [] → e = []) (n : Nat) :
    Written ']' (readValue n) (enclosed '\x7b' '\x7d' b e ps) (within n (obj members)) := by
  refine ⟨⟨'\x7b', _, rfl, rfl, by decide⟩, fun rest _ => ?_⟩
  cases n with
  | zero =>
    rw [within_zero_of_pos (by simp [depth])]
    exact readValue_zero (Or.inr rfl) _
  | succ n =>
    have hps := List.forall₂_map_right_iff.2 (h n)
    have hlist := readList_written (Or.inr rfl) hps hb he hne rest
    rw [within_obj, Option.map_map]
    simp only [enclosed, List.cons_append, List.append_assoc, List.nil_append, readValue]
    rw [hlist, Option.map_map]
    rfl

/-! ## Texts without blanks -/

theorem allBlank_nil : AllBlank [] := by simp [AllBlank]

theorem enclosed_compact (opening closing : Char) (ps : List Text) :
    enclosed opening closing [] [] ps = [opening] ++ Text.joinWith "," ps ++ [closing] := by
  cases ps <;> simp [enclosed, Text.joinWith]

mutual

/-- **A value is read back from its text without blanks.** -/
theorem written_render : ∀ v : Json, v.Tidy → ∀ n, Written ']' (readValue n) v.render (within n v)
  | .null, h => written_scalar rfl h
  | .bool _, h => written_scalar rfl h
  | .int _, h => written_scalar rfl h
  | .real _, h => written_scalar rfl h
  | .str _, h => written_scalar rfl h
  | .arr items, h => by
    have hitems := written_renderItems items h
    have := written_arr hitems allBlank_nil allBlank_nil fun _ => rfl
    rwa [enclosed_compact] at this
  | .obj members, h => by
    have hmembers := written_renderMembers members h.2
    have := written_obj hmembers allBlank_nil allBlank_nil fun _ => rfl
    rwa [enclosed_compact] at this

theorem written_renderItems : ∀ items : List Json, TidyItems items → ∀ n,
    List.Forall₂ (fun p v => Written ']' (readValue n) p (within n v)) (renderItems items) items
  | [], _, _ => .nil
  | v :: items, h, n => .cons (written_render v h.1 n) (written_renderItems items h.2 n)

theorem written_renderMembers : ∀ members : List (Text × Json), TidyMembers members → ∀ n,
    List.Forall₂ (fun p m => Written '\x7d' (readMember (readValue n)) p
      ((within n m.2).map (m.1, ·))) (renderMembers members) members
  | [], _, _ => .nil
  | (_, v) :: members, h, n =>
    .cons (written_member (written_render v h.1 n) allBlank_nil)
      (written_renderMembers members h.2 n)

end

/-! ## Texts over several lines -/

theorem allBlank_newLine (level : Nat) : AllBlank (newLine level) := by
  intro c hc
  rcases List.mem_cons.1 hc with rfl | hc
  · rfl
  · rw [List.eq_of_mem_replicate hc]
    rfl

theorem block_eq (level : Nat) (opening closing : Char) (ps : List Text) :
    block level opening closing ps = enclosed opening closing (newLine (level + 1))
      (if ps = [] then [] else newLine level) ps := by
  cases ps <;> simp [block, enclosed]

theorem allBlank_end (level : Nat) (ps : List Text) :
    AllBlank (if ps = [] then [] else newLine level) := by
  split
  · exact allBlank_nil
  · exact allBlank_newLine level

mutual

/-- **A value is read back from its text over several lines.** -/
theorem written_renderAt : ∀ v : Json, v.Tidy → ∀ level n,
    Written ']' (readValue n) (v.renderAt level) (within n v)
  | .null, h, _ => written_scalar rfl h
  | .bool true, h, _ => written_scalar rfl h
  | .bool false, h, _ => written_scalar rfl h
  | .int _, h, _ => written_scalar rfl h
  | .real _, h, _ => written_scalar rfl h
  | .str _, h, _ => written_scalar rfl h
  | .arr items, h, level => by
    have hitems := written_renderItemsAt items h (level + 1)
    rw [renderAt, block_eq]
    exact written_arr hitems (allBlank_newLine _) (allBlank_end _ _) fun hnil => if_pos hnil
  | .obj members, h, level => by
    have hmembers := written_renderMembersAt members h.2 (level + 1)
    rw [renderAt, block_eq]
    exact written_obj hmembers (allBlank_newLine _) (allBlank_end _ _) fun hnil => if_pos hnil

theorem written_renderItemsAt : ∀ items : List Json, TidyItems items → ∀ level n,
    List.Forall₂ (fun p v => Written ']' (readValue n) p (within n v))
      (renderItemsAt level items) items
  | [], _, _, _ => .nil
  | v :: items, h, level, n =>
    .cons (written_renderAt v h.1 level n) (written_renderItemsAt items h.2 level n)

theorem written_renderMembersAt : ∀ members : List (Text × Json), TidyMembers members → ∀ level n,
    List.Forall₂ (fun p m => Written '\x7d' (readMember (readValue n)) p
      ((within n m.2).map (m.1, ·))) (renderMembersAt level members) members
  | [], _, _, _ => .nil
  | (_, v) :: members, h, level, n =>
    .cons (written_member (b := [' ']) (written_renderAt v h.1 level n)
        (by simp [AllBlank, isJsonBlank]))
      (written_renderMembersAt members h.2 level n)

end

/-! ## Whole texts -/

theorem Written.read {p : Text} {o : Option Json} (h : Written ']' (readValue maxDepth) p o) :
    Json.read p = o := by
  obtain ⟨c, t, rfl, hc, -⟩ := h.starts
  have hskip : skipJsonBlanks (c :: t) = c :: t :=
    skipJsonBlanks_append (b := []) allBlank_nil (by simpa using hc)
  have hread := h.reads [] (by simp [Ends])
  rw [List.append_nil] at hread
  rw [Json.read, hskip, hread]
  cases o <;> rfl

/-- A tidy value is read back with its members sorted, unless it is too deep. -/
theorem read_render {v : Json} (h : v.Tidy) : Json.read v.render = within maxDepth v :=
  (written_render v h _).read

theorem read_renderPretty {v : Json} (h : v.Tidy) : Json.read v.renderPretty = within maxDepth v :=
  (written_renderAt v h 0 _).read

end Soql.Json
