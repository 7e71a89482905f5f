/-
  Filters of any kind, link by link.

  The filters of `WHERE` and `HAVING` are read in the same way: a link, and if
  an operator follows it the links after that.  A link gives back the number
  of parentheses that are open after it.

  * `value_joinLinks_cons`: the text of a filter, from its first link on.
  * `chainUpTo`: a filter read by a parser of links.
  * `Follows`: what may stand after a link.
  * `LinkPhrase`, `ChainPhrase`: a link and a filter that were read, and are
    read back.
  * `reads_chainUpTo`: if links are read back then so are filters.
-/
import Mathlib
import Soql.Proofs.Parse.Laid

namespace Soql

open Unicode Token Soql.Parser

/-! ## Trimmed texts -/

namespace Text

/-- The text is not empty and ends in a character that is no blank. -/
def EndsInk (t : Text) : Prop := ∃ u c, t = u ++ [c] ∧ isBlank c = false

theorem EndsInk.append {t : Text} (h : EndsInk t) (u : Text) : EndsInk (u ++ t) := by
  obtain ⟨v, c, rfl, hc⟩ := h
  exact ⟨u ++ v, c, (List.append_assoc ..).symm, hc⟩

theorem EndsInk.trimRight {t : Text} (h : EndsInk t) : t.trimRight = t := by
  obtain ⟨u, c, rfl, hc⟩ := h
  simp [Text.trimRight, hc]

theorem trimRight_append_blank {t b : Text} (h : EndsInk t) (hb : ∀ c ∈ b, isBlank c) :
    (t ++ b).trimRight = t := by
  have : (b.reverse ++ t.reverse).dropWhile isBlank = t.reverse.dropWhile isBlank := by
    rw [List.dropWhile_append_of_pos]
    intro c hc
    exact hb c (List.mem_reverse.1 hc)
  rw [Text.trimRight, List.reverse_append, this]
  exact h.trimRight

/-- Blanks at the start are taken off from what ends in another character. -/
theorem EndsInk.trimLeft {t : Text} (h : EndsInk t) (u : Text) :
    EndsInk t.trimLeft ∧ (t ++ u).trimLeft = t.trimLeft ++ u := by
  obtain ⟨v, c, rfl, hc⟩ := h
  simp only [Text.trimLeft, List.dropWhile_append, List.append_assoc]
  split
  · refine ⟨⟨[], c, ?_, hc⟩, ?_⟩ <;> simp [hc]
  · exact ⟨⟨_, c, rfl, hc⟩, by simp⟩

/-- A text put after another one is not trimmed. -/
theorem trim_append {t u : Text} (ht : EndsInk t) (hu : EndsInk u) :
    trim (t ++ " " ++ u) = trim (t ++ " ") ++ " " ++ u := by
  have hblank : ∀ c ∈ " ".toList, isBlank c := by simp; decide
  obtain ⟨hink, h⟩ := ht.trimLeft (" " ++ u)
  obtain ⟨-, h'⟩ := ht.trimLeft " "
  rw [trim, trim, List.append_assoc, h, h', trimRight_append_blank hink hblank]
  rw [← List.append_assoc]
  exact (hu.append _).trimRight

end Text

theorem Tight.endsInk {vs : List Piece} (h : Tight vs) (hne : vs ≠ []) : (spell vs).EndsInk := by
  obtain ⟨ws, p, rfl⟩ := (List.eq_nil_or_concat vs).resolve_left hne
  rw [List.concat_eq_append] at h ⊢
  rw [spell_append]
  refine Text.EndsInk.append ?_ _
  have hp := h.2 p (by simp)
  cases p with
  | blank => simp at hp
  | token t ht =>
    obtain ⟨u, c, hu⟩ := (List.eq_nil_or_concat t.spelling).resolve_left ht.ne_nil
    rw [List.concat_eq_append] at hu
    exact ⟨u, c, by simp [hu], ht.isBlank_last c (by simp [hu])⟩

theorem Tight.trimLeft {vs : List Piece} (h : Tight vs) : (spell vs).trimLeft = spell vs := by
  cases hs : spell vs with
  | nil => rfl
  | cons c t =>
    have := h.isBlank_ends.1 c (by simp [hs])
    simp [Text.trimLeft, this]

/-- Pieces that start and end with a token are what is left when blanks around them are
    trimmed. -/
theorem Tight.trim {vs : List Piece} (h : Tight vs) (hne : vs ≠ []) {b b' : Text}
    (hb : BlankText b) (hb' : BlankText b') : Text.trim (b ++ (spell vs ++ b')) = spell vs := by
  rw [Text.trim, Text.trimLeft, List.dropWhile_append_of_pos hb, ← Text.trimLeft,
    ((h.endsInk hne).trimLeft b').2, h.trimLeft, Text.trimRight_append_blank (h.endsInk hne) hb']

/-! ## The text of a filter -/

/-- The text of the operator of a link. -/
def operatorText (l : Layout) : Option Connective → Text
  | none => []
  | some op => l.connective (Keyword.spelling op) []

/-- The text of a link with its operator. -/
def Link.text (l : Layout) (x : Link Text) : Text :=
  Text.trim (x.condition.getD [] ++ operatorText l x.connective)

namespace Compose

theorem value_foldlM {α β : Type} (f : α → β → Journaled α) (a : α) (bs : List β) :
    (bs.foldlM f a).value = bs.foldl (fun a b => (f a b).value) a := by
  induction bs generalizing a with
  | nil => rfl
  | cons b bs ih => simp [List.foldlM_cons, ih]

theorem value_joinLinks_single (l : Layout) {x : Link Text} (hx : x.connective = none) :
    (joinLinks l [x]).value = x.text l := by
  simp [joinLinks, Link.text, operatorText, hx]

theorem value_joinLinks_trim (l : Layout) (x y : Link Text) (xs : List (Link Text)) :
    (joinLinks l (x :: y :: xs)).value = Text.trim (x.condition.getD [] ++
      l.connective ((x.connective.map Keyword.spelling).getD [])
        (joinLinks l (y :: xs)).value) := by
  have hne : (y :: xs).reverse ≠ [] := by simp
  obtain ⟨last, before, hr⟩ := List.exists_cons_of_ne_nil hne
  have hr' : (x :: y :: xs).reverse = last :: (before ++ [x]) := by
    rw [List.reverse_cons, hr, List.cons_append]
  simp [joinLinks, hr, hr', value_foldlM, joinLink, layConnective]

/-- The text of a filter is the text of its first link and that of the links after it. -/
theorem value_joinLinks_cons {l : Layout} {k : Nat} (hl : l.Spaced k) {x : Link Text}
    {op : Connective} (hx : x.connective = some op) (y : Link Text) (xs : List (Link Text))
    (hink : (joinLinks l (y :: xs)).value.EndsInk) :
    (joinLinks l (x :: y :: xs)).value = x.text l ++ " " ++ (joinLinks l (y :: xs)).value := by
  obtain ⟨c, b, hc, hb, hop⟩ := hl.connective
  have hspell : (Keyword.spelling op : Text).EndsInk := by
    cases op
    · exact ⟨['A', 'N'], 'D', rfl, by decide⟩
    · exact ⟨['O'], 'R', rfl, by decide⟩
    · exact ⟨['N', 'O'], 'T', rfl, by decide⟩
  have htrim := Text.trim_append (hspell.append (x.condition.getD [] ++ c :: b)) hink
  rw [value_joinLinks_trim, Link.text, hx]
  simpa [hop, operatorText] using htrim

end Compose

/-! ## Reading links -/

namespace Parser

/-- A filter of at most `n` links, inside of `depth` open parentheses of the same filter. -/
def chainUpTo {κ : Type} (link : Nat → Parser (Link κ × Nat)) : Nat → Nat → Parser (Chain κ)
  | 0, _ => fail .fieldOrFunction
  | n + 1, depth => do
    let (x, depth) ← link depth
    match x.connective with
    | none => return ⟨x, []⟩
    | some _ => return ⟨x, (← chainUpTo link n depth).links⟩

section Chain

variable {κ : Type} {link : Nat → Parser (Link κ × Nat)} {n depth mid : Nat}
  {us ws ds : List Piece} {x : Link κ} {chain : Chain κ}

theorem run_chainUpTo_last (h : Run (link depth) us (x, mid) ds) (hx : x.connective = none) :
    Run (chainUpTo link (n + 1) depth) us ⟨x, []⟩ ds := by
  refine h.bind_nil ?_
  simp only [hx]
  exact Run.pure _ ds

theorem run_chainUpTo_cons {op : Connective} (h : Run (link depth) us (x, mid) (ws ++ ds))
    (hx : x.connective = some op) (hrest : Run (chainUpTo link n mid) ws chain ds) :
    Run (chainUpTo link (n + 1) depth) (us ++ ws) ⟨x, chain.links⟩ ds := by
  refine h.bind ?_
  simp only [hx]
  exact hrest.bind_pure fun chain => (⟨x, chain.links⟩ : Chain κ)

end Chain

/-- What may follow a link after which `depth` parentheses are open. -/
def Follows (connective : Option Connective) (depth : Nat) (t : Token) : Prop :=
  match connective with
  | none => t.isKeyword "AND" = false ∧ t.isKeyword "OR" = false ∧
      (0 < depth → t ≠ .closeParen)
  | some .not => t = .openParen
  | some _ => True

/-- The pieces start and end with a token, with an opening parenthesis if `us` do. -/
def Opens (us vs : List Piece) : Prop :=
  Tight vs ∧ inView vs ≠ .finish ∧ (inView us = .openParen → inView vs = .openParen)

theorem Follows.indent {op : Connective} {depth : Nat} {t : Token}
    (h : Follows (some op) depth t) (i : Nat) : Follows (some op) depth (t.indent i) := by
  cases op with
  | not =>
    obtain rfl : t = .openParen := h
    rfl
  | _ => trivial

theorem Follows.opens {op : Connective} {depth : Nat} {us vs : List Piece}
    (h : Follows (some op) depth (inView us)) (hv : Opens us vs) :
    Follows (some op) depth (inView vs) := by
  cases op with
  | not => exact hv.2.2 h
  | _ => trivial

/-- What an operator is joined to also follows it with a blank before it and tabs inside. -/
theorem Follows.spaced {op : Connective} {depth : Nat} {us vs : List Piece}
    (h : Follows (some op) depth (inView us)) (hv : Opens us vs) (i : Nat) (ds : List Piece) :
    Follows (some op) depth (inView (indentAll i ([Piece.space] ++ vs) ++ ds)) := by
  rw [indentAll_append, List.append_assoc, (blank_space.indentAll i).inView_append,
    inView_indentAll_append hv.2.1]
  exact (h.opens hv).indent i

theorem Opens.joined {us ws vs vs' : List Piece} (h : Opens us vs) (h' : Opens ws vs')
    (hu : inView us ≠ .finish) : Opens (us ++ ws) (vs ++ ([Piece.space] ++ vs')) := by
  refine ⟨h.1.append h'.1 (ne_nil_of_inView h.2.1) (ne_nil_of_inView h'.2.1) _, ?_, ?_⟩
  · rw [inView_append h.2.1]
    exact h.2.1
  · rw [inView_append hu, inView_append h.2.1]
    exact h.2.2

/-- A chain is its last link, or a link and what its operator joins to it. -/
theorem Reads.chainUpTo {κ : Type} {link : Nat → Parser (Link κ × Nat)}
    {P : Nat → List Piece → Link κ × Nat → List Piece → Prop}
    {Q : Nat → List Piece → Chain κ → List Piece → Prop} {n : Nat}
    (h : ∀ depth, Reads (link depth) (P depth))
    (hrest : ∀ depth, Reads (chainUpTo link n depth) (Q depth)) (depth : Nat) :
    Reads (chainUpTo link (n + 1) depth) fun us chain ds =>
      (∃ x after, x.connective = none ∧ chain = ⟨x, []⟩ ∧ P depth us (x, after) ds) ∨
        ∃ x mid op vs ws rest, x.connective = some op ∧ chain = ⟨x, rest.links⟩ ∧ us = vs ++ ws ∧
          P depth vs (x, mid) (ws ++ ds) ∧ Q mid ws rest ds := by
  refine ((h depth).bind (R := fun r us chain ds =>
    (r.1.connective = none ∧ us = [] ∧ chain = ⟨r.1, []⟩) ∨ ∃ op rest,
      r.1.connective = some op ∧ chain = ⟨r.1, rest.links⟩ ∧ Q r.2 us rest ds) ?_).mono ?_
  · rintro ⟨x, mid⟩
    cases hx : x.connective with
    | none =>
      simp only [hx]
      exact (Reads.pure _).mono fun us chain ds h => Or.inl ⟨trivial, h⟩
    | some op =>
      simp only [hx]
      refine ((hrest mid).bind fun rest => Reads.pure _).mono ?_
      rintro us chain ds ⟨us, rest, _, rfl, hQ, rfl, rfl⟩
      rw [List.append_nil]
      exact Or.inr ⟨op, rest, rfl, rfl, hQ⟩
  · rintro _ _ ds ⟨us, ⟨x, mid⟩, ws, rfl, hP, ⟨hx, rfl, rfl⟩ | ⟨op, rest, hx, rfl, hQ⟩⟩
    · rw [List.append_nil]
      exact Or.inl ⟨x, mid, hx, rfl, hP⟩
    · exact Or.inr ⟨x, mid, op, us, ws, rest, hx, rfl, rfl, hP, hQ⟩

/-- A kind of filter: the links it is read from, what is passed over when conditions are compared,
    and the parts and the text of a condition. -/
structure LinkKind (κ : Type) where
  link (m depth : Nat) : Parser (Link κ × Nat)
  forget : κ → κ
  parts : κ → List (Nat × Part)
  text : Layout → κ → Text

namespace LinkKind

variable {κ : Type} (K : LinkKind κ)

/-- The parts of a link. -/
def linkParts (x : Link κ) : List (Nat × Part) := x.condition.toList.flatMap K.parts

/-- A link that was read from `us` inside of `depth` parentheses, and leaves `after` of them
    open. -/
structure LinkPhrase (depth : Nat) (us : List Piece) (x : Link κ) (after : Nat) : Prop where
  literals : literals us = stringsAt 0 (K.linkParts x)
  feeds : Feeds (K.linkParts x)
  starts : inView us ≠ .finish
  laid : Laid (fun m _ => K.link m depth)
    (fun t => Follows x.connective after t ∧ (x.connective = none → t ≠ .colon))
    (fun y => y.1.map K.forget = x.map K.forget ∧ y.2 = after) (K.linkParts x) (Opens us)
    fun l => (x.map (K.text l)).text l

/-- Links that were read from `us` inside of `depth` parentheses, and leave `after` of them
    open. -/
structure ChainPhrase (depth : Nat) (us : List Piece) (xs : List (Link κ)) (after : Nat) :
    Prop where
  literals : literals us = stringsAt 0 (xs.flatMap K.linkParts)
  feeds : Feeds (xs.flatMap K.linkParts)
  starts : inView us ≠ .finish
  laid : Laid (fun m n => chainUpTo (K.link m) n depth) (fun t => Follows none after t ∧ t ≠ .colon)
    (fun chain => chain.links.map (Link.map K.forget) = xs.map (Link.map K.forget))
    (xs.flatMap K.linkParts) (Opens us)
    fun l => (Compose.joinLinks l (xs.map (Link.map (K.text l)))).value

variable {K} {depth mid after : Nat} {us ws : List Piece} {x : Link κ}

theorem ChainPhrase.single (h : K.LinkPhrase depth us x after) (hx : x.connective = none) :
    K.ChainPhrase depth us [x] after := by
  refine ⟨by simpa using h.literals, by simpa using h.feeds, h.starts, fun l k hl => ?_⟩
  obtain ⟨vs, hsp, hcl, hlit, hs, hrun⟩ := h.laid l k hl
  refine ⟨vs, ?_, hcl, by simpa using hlit, hs, fun i hi => ?_⟩
  · rw [hsp]
    exact (Compose.value_joinLinks_single l hx).symm
  · obtain ⟨⟨y, d⟩, ⟨hy, -⟩, hrun⟩ := hrun i (by simpa using hi)
    have hc : y.connective = none := (congrArg Link.connective hy).trans hx
    refine ⟨⟨y, []⟩, by simp [Chain.links, hy], fun m n hm hn ds hds => ?_⟩
    have hpos := count_pos hs.2.1
    obtain ⟨n, rfl⟩ : ∃ n', n = n' + 1 := ⟨n - 1, by omega⟩
    exact run_chainUpTo_last (hrun m m hm hm ds (by rw [hx]; exact ⟨hds.1, fun _ => hds.2⟩)) hc

/-- A link and the links that its operator joins are read back with a blank between them. -/
theorem readBack_cons {op : Connective} {xs : List (Link κ)} {vs vs' : List Piece} {k : Nat}
    {ps qs : List (Nat × Part)} {F : Token → Prop} (hx : x.connective = some op)
    (hf : Follows (some op) mid (inView ws)) (hs : Opens us vs) (hs' : Opens ws vs')
    (h : ReadBack (fun m _ => K.link m depth)
      (fun t => Follows x.connective mid t ∧ (x.connective = none → t ≠ .colon))
      (fun y => y.1.map K.forget = x.map K.forget ∧ y.2 = mid) k ps vs)
    (hxs : ReadBack (fun m n => chainUpTo (K.link m) n mid) F
      (fun chain => chain.links.map (Link.map K.forget) = xs.map (Link.map K.forget)) k qs vs') :
    ReadBack (fun m n => chainUpTo (K.link m) n depth) F
      (fun chain => chain.links.map (Link.map K.forget) = (x :: xs).map (Link.map K.forget)) k
      (ps ++ qs) (vs ++ ([Piece.space] ++ vs')) := by
  intro i hi
  obtain ⟨⟨x', d⟩, ⟨hx', rfl⟩, hrun⟩ := h i hi.left
  obtain ⟨chain, hchain, hrun'⟩ := hxs i hi.right
  have hc : x'.connective = some op := (congrArg Link.connective hx').trans hx
  refine ⟨⟨x', chain.links⟩, congrArg₂ List.cons hx' hchain, fun m n hm hn ds hds => ?_⟩
  have hpos := count_pos hs.2.1
  simp only [count_append, count_space, count_nil] at hm hn
  obtain ⟨n, rfl⟩ : ∃ n', n = n' + 1 := ⟨n - 1, by omega⟩
  have hfirst := hrun m m (by omega) (by omega) _
    ⟨by rw [hx]; exact hf.spaced hs' i ds, by simp [hx]⟩
  have hrest := hrun' m n (by omega) (by omega) ds hds
  rw [indentAll_append]
  refine run_chainUpTo_cons hfirst hc ?_
  rw [indentAll_append]
  exact hrest.blank_append (blank_space.indentAll i)

/-- A link in front of the links that its operator joins. -/
theorem ChainPhrase.cons {op : Connective} {xs : List (Link κ)} {y : Link κ}
    (h : K.LinkPhrase depth us x mid) (hx : x.connective = some op)
    (hf : Follows (some op) mid (inView ws)) (hxs : K.ChainPhrase mid ws (y :: xs) after) :
    K.ChainPhrase depth (us ++ ws) (x :: y :: xs) after := by
  refine ⟨?_, ?_, ?_, fun l k hl => ?_⟩
  · rw [literals_append, h.literals, hxs.literals, ← stringsAt_append, ← List.flatMap_cons]
  · rw [List.flatMap_cons, feeds_append]
    exact ⟨h.feeds, hxs.feeds⟩
  · rw [inView_append h.starts]
    exact h.starts
  · obtain ⟨vs, hsp, hcl, hlit, hs, hread⟩ := h.laid l k hl
    obtain ⟨vs', hsp', hcl', hlit', hs', hread'⟩ := hxs.laid l k hl
    refine ⟨vs ++ ([Piece.space] ++ vs'), ?_, ?_, ?_, hs.joined hs' h.starts, ?_⟩
    · have hink := hs'.1.endsInk (ne_nil_of_inView hs'.2.1)
      rw [hsp'] at hink
      have := Compose.value_joinLinks_cons hl (x := x.map (K.text l)) hx _ _ hink
      simpa [hsp, hsp'] using this.symm
    · exact hcl.append (closed_space hcl') (clean_cons (c := ' ') (by decide) _)
    · rw [List.flatMap_cons, stringsAt_append, ← hlit, ← hlit']
      simp
    · rw [List.flatMap_cons]
      exact readBack_cons hx hf hs hs' hread hread'

/-- **Filters are read back if links are.** -/
theorem reads_chainUpTo {link : Nat → Parser (Link κ × Nat)}
    (h : ∀ depth, Reads (link depth) fun us r ds =>
      Follows r.1.connective r.2 (inView ds) ∧ K.LinkPhrase depth us r.1 r.2) (n depth : Nat) :
    Reads (chainUpTo link n depth) fun us chain ds => ∃ after,
      Follows none after (inView ds) ∧ K.ChainPhrase depth us chain.links after := by
  induction n generalizing depth with
  | zero => exact Reads.fail _
  | succ n ih =>
    refine (Reads.chainUpTo h ih depth).mono ?_
    rintro us _ ds (⟨x, after, hc, rfl, hf, hx⟩ |
      ⟨x, mid, op, us, ws, rest, hc, rfl, rfl, ⟨hf, hx⟩, after, hf', hrest⟩)
    · rw [hc] at hf
      exact ⟨after, hf, .single hx hc⟩
    · rw [hc, inView_append hrest.starts] at hf
      exact ⟨after, hf', .cons hx hc hf hrest⟩

end LinkKind

end Parser

end Soql
