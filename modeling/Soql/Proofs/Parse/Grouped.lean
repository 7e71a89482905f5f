/-
  Boolean filters, read as chains.

  A filter is read link by link, and the groups of it show only in the
  parentheses that a link takes.  What stands in front of a term and what
  comes after it are kept as parameters, so that the proof can go along the
  groups all the same.

  * `Condition.parse`: the condition that a text stands for.
  * `Formula.Written f us`: the pieces `us` are a writing of the filter `f`.
  * `Leads`: where reading links leads to, links or a rejection.
  * `Formula.leads`: an admissible filter leads to its chain.
  * `Formula.rejected`: a filter that is not admissible is rejected.
-/
import Mathlib
import Soql.Proofs.Query.Boolean
import Soql.Proofs.Parse.Again

namespace Soql

open Unicode Token Soql.Parser

/-! ## Writings of filters -/

/-- The condition that a text stands for, without what stands around it. -/
def Condition.parse (text : Text) : Except ParseError Condition :=
  readAll (do condition (selectUpTo ((← get).size + 1) false)) text

/-- The text of the pieces is read as the condition. -/
structure IsCondition (us : List Piece) (c : Condition) : Prop where
  fits : Fits us []
  reads : Condition.parse (spell us) = .ok c

namespace IsCondition

variable {us ds : List Piece} {c : Condition}

/-- What holds of the conditions that are read holds of the condition of the pieces. -/
theorem reading {P : List Piece → Condition → List Piece → Prop} (h : IsCondition us c)
    (hP : ∀ n, Reads (condition (selectUpTo n false)) P) :
    ∃ vs bs, us = vs ++ bs ∧ Blank bs ∧ P vs c bs := by
  have hread : Reads (do condition (selectUpTo ((← get).size + 1) false)) P :=
    fun _ _ _ _ _ _ hc hok => hP _ hc hok
  obtain ⟨vs, bs, hus, hbs, hc⟩ :=
    readAll_at hread (by simp [Ending.plain]) h.fits (ofText_spell h.fits) h.reads
  exact ⟨vs, bs, hus, blank_of_inView hbs, hc⟩

/-- What is read as a condition alone is read as the same condition wherever it stands. -/
theorem run (h : IsCondition us c) {m : Nat} (hm : count us ≤ m) (hds : inView ds ≠ .colon) :
    Run (condition (selectUpTo m false)) us c ds := by
  obtain ⟨vs, bs, rfl, hbs, -, hrun⟩ := h.reading fun n => again_condition (again_select n false)
  rw [count_append, hbs.count] at hm
  refine Run.append_blank hbs (hrun m _ hm fun hcolon => ?_)
  rw [hbs.inView_append] at hcolon
  exact absurd hcolon hds

theorem starts (h : IsCondition us c) : ∃ w, inView us = .word w := by
  obtain ⟨vs, bs, rfl, -, hc⟩ := h.reading fun n => reads_condition (readsQuery_selectUpTo n false)
  obtain ⟨w, hw⟩ := hc.starts
  exact ⟨w, by rw [inView_append (by simp [hw]), hw]⟩

theorem blank_append {bs : List Piece} (hb : Blank bs) (h : IsCondition us c) :
    IsCondition (bs ++ us) c := by
  have hfits : Fits (bs ++ us) [] := (fits_append ..).2 ⟨hb.fits _, h.fits⟩
  refine ⟨hfits, readAll_spell hfits (Run.get fun cur hsize => ?_)⟩
  refine (h.run ?_ (by simp)).blank_append hb
  simp only [count_append, hb.count, count_nil] at hsize
  omega

/-- Nothing stands around a condition that is read. -/
theorem bare (h : IsCondition us c) : c.Bare := by
  have hbare (n : Nat) : Reads (condition (selectUpTo n false)) fun _ c _ => c.Bare := by
    intro E T ps cur c cur' hc hok
    obtain ⟨vs, ds, hs, hd, -⟩ := again_condition (again_select n false) hc hok
    rw [condition_eq] at hok
    obtain ⟨r, _, -, hok⟩ := bind_eq_ok.1 hok
    obtain ⟨rfl, -⟩ := pure_eq_ok.1 hok
    exact ⟨vs, ds, hs, hd, rfl⟩
  obtain ⟨-, -, -, -, hc⟩ := h.reading hbare
  exact hc

end IsCondition

mutual

/-- The pieces are a writing of the term. -/
def Term.Written : Term → List Piece → Prop
  | .condition negated c, us => ∃ ns ws, us = ns ++ ws ∧ Negates negated ns ∧ IsCondition ws c ∧
      (negated = false → (inView ws).isKeyword "NOT" = false)
  | .group negated body, us => ∃ ns os ws cs, us = ns ++ (os ++ (ws ++ cs)) ∧ Negates negated ns ∧
      Single .openParen os ∧ body.Written ws ∧ Single .closeParen cs

/-- The pieces are a writing of the filter. -/
def Formula.Written : Formula → List Piece → Prop
  | .last t, us => t.Written us
  | .join t op rest, us => ∃ vs ks ws, us = vs ++ (ks ++ ws) ∧ t.Written vs ∧
      IsKeyword (Keyword.spelling op.connective) ks ∧ rest.Written ws

end

namespace Parser

/-! ## Where reading leads to -/

/-- The parser fails at the pieces because a group starts with the negation of another one. -/
def Rejects {α : Type} (f : Parser α) (us : List Piece) : Prop :=
  ∀ T, (spell us).length ≤ T → ∃ position c,
    f (cursor T us) = .error (.unsupported .negatedGroupInParentheses position) c

section Rejects

variable {α β : Type} {f : Parser α} {g : α → Parser β} {a : α} {us ds : List Piece}

theorem Rejects.bind (h : Rejects f us) (g : α → Parser β) : Rejects (f >>= g) us := by
  intro T hT
  obtain ⟨position, c, hc⟩ := h T hT
  exact ⟨position, c, bind_of_error hc⟩

theorem Run.rejects (hf : Run f us a ds) (hg : Rejects (g a) ds) :
    Rejects (f >>= g) (us ++ ds) := by
  intro T hT
  obtain ⟨position, c, hc⟩ := hg T (le_trans (by simp) hT)
  exact ⟨position, c, (bind_of_ok (hf T hT)).trans hc⟩

theorem Run.rejects_both {g : Parser β} (hf : Run f us a ds) (hg : Rejects g ds) :
    Rejects (Parser.both f g) (us ++ ds) :=
  hf.rejects (hg.bind _)

theorem Rejects.blank_append {bs : List Piece} (hb : Blank bs) (h : Rejects f us) :
    Rejects f (bs ++ us) := by
  intro T hT
  rw [hb.cursor_append]
  exact h T (le_trans (by simp) hT)

end Rejects

/-- Links, and the pieces that follow them; nothing for a rejection. -/
abbrev FilterOutcome : Type := Option (List (Link Condition) × List Piece)

/-- Links in front of those of an outcome. -/
def FilterOutcome.inFront (xs : List (Link Condition)) (r : FilterOutcome) : FilterOutcome :=
  r.map fun p => (xs ++ p.1, p.2)

theorem FilterOutcome.inFront_append (xs ys : List (Link Condition)) (r : FilterOutcome) :
    r.inFront (xs ++ ys) = (r.inFront ys).inFront xs := by
  cases r <;> simp [FilterOutcome.inFront]

/-- What reading a filter inside of `depth` parentheses leads to. -/
def Leads (m depth : Nat) (us : List Piece) (r : FilterOutcome) : Prop :=
  ∀ n, count us ≤ n → match r with
    | some (xs, ds) => ∃ chain vs, Chain.links chain = xs ∧ us = vs ++ ds ∧
        Run (chainUpTo (whereKind.link m) n depth) vs chain ds
    | none => Rejects (chainUpTo (whereKind.link m) n depth) us

section Leads

variable {m depth after : Nat} {us ws ds : List Piece} {x : Link Condition} {r : FilterOutcome}

/-- A link after which nothing is joined. -/
theorem Leads.last (h : Run (whereKind.link m depth) us (x, after) ds) (hu : 0 < count us)
    (hx : x.connective = none) : Leads m depth (us ++ ds) (some ([x], ds)) := by
  intro n hn
  rw [count_append] at hn
  obtain ⟨n, rfl⟩ : ∃ k, n = k + 1 := ⟨n - 1, by omega⟩
  exact ⟨⟨x, []⟩, us, rfl, rfl, run_chainUpTo_last h hx⟩

/-- A link in front of what its operator joins. -/
theorem Leads.cons {op : Connective} (h : Run (whereKind.link m depth) us (x, after) ws)
    (hu : 0 < count us) (hx : x.connective = some op) (hws : Leads m after ws r) :
    Leads m depth (us ++ ws) (r.inFront [x]) := by
  intro n hn
  rw [count_append] at hn
  obtain ⟨n, rfl⟩ : ∃ k, n = k + 1 := ⟨n - 1, by omega⟩
  have hrest := hws n (by omega)
  cases r with
  | none =>
    refine h.rejects ?_
    simp only [hx]
    exact hrest.bind _
  | some p =>
    obtain ⟨chain, vs, hlinks, rfl, hrun⟩ := hrest
    refine ⟨⟨x, chain.links⟩, us ++ vs, ?_, (List.append_assoc ..).symm,
      run_chainUpTo_cons h hx hrun⟩
    simp [Chain.links, ← hlinks]

end Leads

/-! ## What comes after a term -/

theorem Repeated.inView_ne_colon {n : Nat} {cs ds : List Piece} (h : Repeated .closeParen n cs)
    (hds : inView ds ≠ .colon) : inView (cs ++ ds) ≠ .colon := by
  cases h with
  | nil => exact hds
  | cons hu _ => simp [hu.inView_append]

/-- What comes after a term inside of `depth` parentheses: as many closing ones as groups end with
    it, and what is joined or the end of the filter. -/
inductive After (m depth closes : Nat) : Option Connective → List Piece → FilterOutcome → Prop
  | last {cs ds : List Piece} (hc : Repeated .closeParen closes cs) (hle : closes ≤ depth)
      (hends : inView ds ≠ .colon) (hf : Follows none (depth - closes) (inView ds)) :
      After m depth closes none (cs ++ ds) (some ([], ds))
  | join {cs ks ws : List Piece} {op : Joint} {r : FilterOutcome}
      (hc : Repeated .closeParen closes cs) (hle : closes ≤ depth)
      (hk : IsKeyword (Keyword.spelling op.connective) ks) (h : Leads m (depth - closes) ws r) :
      After m depth closes (some op.connective) (cs ++ (ks ++ ws)) r

theorem After.close {m depth closes : Nat} {o : Option Connective} {cs rs : List Piece}
    {r : FilterOutcome} (hs : Single .closeParen cs) (h : After m depth closes o rs r) :
    After m (depth + 1) (closes + 1) o (cs ++ rs) r := by
  cases h with
  | last hc hle hends hf =>
    rw [← List.append_assoc]
    exact .last (.cons hs hc) (by omega) hends (by simpa using hf)
  | join hc hle hk h =>
    rw [← List.append_assoc]
    exact .join (.cons hs hc) (by omega) hk (by simpa using h)

/-- Reading a link up to what comes after its condition. -/
theorem After.leads {m depth depth' closes : Nat} {o : Option Connective} {us rs : List Piece}
    {c : Condition} {r : FilterOutcome} (h : After m depth closes o rs r) (hu : 0 < count us)
    (hlink : ∀ vs ds, inView (vs ++ ds) ≠ .colon → Run (closing depth) vs (closes, o) ds →
      Run (whereKind.link m depth') (us ++ vs) (⟨some c, o⟩, depth - closes) ds) :
    Leads m depth' (us ++ rs) (r.inFront [⟨some c, o⟩]) := by
  cases h with
  | @last cs ds hc hle hends hf =>
    have hclose : Run (closing depth) cs (closes, none) ds :=
      (run_closeParens hc hle fun h => hf.2.2 (by omega)).bind_nil
        ((run_connective_none hf.1 hf.2.1).bind_nil (Run.pure _ ds))
    rw [← List.append_assoc]
    exact .last (hlink cs ds (hc.inView_ne_colon hends) hclose) (by simp; omega) rfl
  | @join cs ks ws op r hc hle hk h =>
    have hends : inView (ks ++ ws) ≠ .colon := by
      obtain ⟨w, hw, -⟩ := id hk
      simp [hw.inView_append]
    have hclose : Run (closing depth) (cs ++ ks) (closes, some op.connective) ws := by
      refine (run_closeParens hc hle fun _ => ?_).bind
        ((run_connective op.connective_ne_not hk ws).bind_nil (Run.pure _ ws))
      obtain ⟨w, hw, -⟩ := hk
      simp [hw.inView_append]
    have hview : inView ((cs ++ ks) ++ ws) ≠ .colon := by
      rw [List.append_assoc]
      exact hc.inView_ne_colon hends
    have := Leads.cons (hlink (cs ++ ks) ws hview hclose) (by simp; omega) rfl h
    simpa using this

/-! ## Links around conditions and in front of groups -/

/-- A condition with the parentheses and the negation before it, and what closes it. -/
theorem run_link {m depth opens closes : Nat} {negated : Bool} {o : Option Connective}
    {pre ns ws vs ds : List Piece} {c : Condition} (hp : Repeated .openParen opens pre)
    (hn : Negates negated ns) (hc : IsCondition ws c)
    (hnot : negated = false → (inView ws).isKeyword "NOT" = false) (hm : count ws ≤ m)
    (hends : inView (vs ++ ds) ≠ .colon)
    (hclose : Run (closing (depth + opens)) vs (closes, o) ds) :
    Run (whereKind.link m depth) ((pre ++ ns) ++ (ws ++ vs))
      (⟨some (c.surround opens negated closes), o⟩, depth + opens - closes) ds := by
  obtain ⟨w, hw⟩ := hc.starts
  have hview : inView (ws ++ (vs ++ ds)) = .word w := by
    rw [inView_append (by simp [hw]), hw]
  have hfront : Run front (pre ++ ns) (some (opens, negated)) ((ws ++ vs) ++ ds) := by
    rw [List.append_assoc]
    refine run_front hp hn (by simp [hview]) fun h => ?_
    rw [hview, ← hw]
    exact hnot h
  exact run_linkOf hfront (hc.run hm hends) hclose

/-- The negation of a group. -/
theorem run_link_group (m depth : Nat) {ns ds : List Piece} (hn : IsKeyword "NOT" ns)
    (hds : inView ds = .openParen) :
    Run (whereKind.link m depth) ns (⟨none, some .not⟩, depth) ds :=
  run_linkOf_group (run_front_group hn hds) _ _ depth

theorem front_rejected {opens : Nat} {pre ns ds : List Piece} (hp : Repeated .openParen opens pre)
    (ho : 0 < opens) (hn : IsKeyword "NOT" ns) (hds : inView ds = .openParen) :
    Rejects front (pre ++ (ns ++ ds)) := by
  obtain ⟨w, hw, hk⟩ := hn
  refine (run_openParens hp (by simp [hw.inView_append])).rejects fun T hT => ?_
  refine ⟨(cursor T (ns ++ ds)).current.start, cursor T ds, ?_⟩
  rw [bind_of_ok (current_eq _), bind_of_ok (run_eatKeyword ⟨w, hw, hk⟩ ds T hT),
    bind_of_ok (atToken_eq _ _)]
  rw [token_cursor, hds]
  simp only [beq_self_eq_true, Bool.and_self, if_true, if_neg ho.ne']
  rfl

theorem Leads.reject (m depth : Nat) {us : List Piece} (h : Rejects front us) (hu : 0 < count us) :
    Leads m depth us none := by
  intro n hn
  obtain ⟨n, rfl⟩ : ∃ k, n = k + 1 := ⟨n - 1, by omega⟩
  have hlink : Rejects (whereKind.link m depth) us := h.bind _
  exact hlink.bind _

end Parser

/-! ## Filters -/

section Filters

variable {m : Nat}

mutual

theorem Term.leads : ∀ (t : Term) {us pre rs : List Piece} {depth opens closes : Nat}
    {o : Option Connective} {r : FilterOutcome}, t.Written us → t.Admissible →
    (0 < opens → t.isNegatedGroup = false) → count us ≤ m → Repeated .openParen opens pre →
    After m (depth + opens) closes o rs r →
    Leads m depth (pre ++ (us ++ rs)) (r.inFront (t.links opens closes o))
  | .condition negated c, us, pre, rs, depth, opens, closes, o, r, hw, _, _, hm, hp, hr => by
    obtain ⟨ns, ws, rfl, hn, hc, hnot⟩ := hw
    obtain ⟨w, hview⟩ := hc.starts
    have hpos : 0 < count ws := count_pos (by simp [hview])
    rw [count_append] at hm
    have hlink : ∀ vs ds, inView (vs ++ ds) ≠ .colon →
        Run (closing (depth + opens)) vs (closes, o) ds →
        Run (whereKind.link m depth) (pre ++ ns ++ ws ++ vs)
          (⟨some (c.surround opens negated closes), o⟩, depth + opens - closes) ds := by
      intro vs ds hends hclose
      rw [List.append_assoc]
      exact run_link hp hn hc hnot (by omega) hends hclose
    have := hr.leads (by simp; omega) hlink
    simpa [Term.links] using this
  | .group false body, us, pre, rs, depth, opens, closes, o, r, hw, ha, _, hm, hp, hr => by
    obtain ⟨_, os, ws, cs, rfl, rfl, ho, hws, hc⟩ := hw
    have hcount : count ws ≤ m := by simp at hm; omega
    have := Formula.leads body hws ha.2 (fun _ => ha.1) hcount (hp.snoc ho) (hr.close hc)
    simpa [Term.links] using this
  | .group true body, us, pre, rs, depth, opens, closes, o, r, hw, ha, hs, hm, hp, hr => by
    obtain rfl : opens = 0 := by simpa [Term.isNegatedGroup] using hs
    obtain rfl := hp.eq_nil
    obtain ⟨ns, os, ws, cs, rfl, hn, ho, hws, hc⟩ := hw
    have hcount : count ws ≤ m := by simp at hm; omega
    have hbody := Formula.leads body hws ha.2 (fun _ => ha.1) hcount
      (.cons ho .nil) (hr.close hc)
    obtain ⟨w, hw, -⟩ := id hn
    have := Leads.cons (run_link_group m depth hn (by simp [ho.inView_append]))
      (by simp [hw.count]) rfl hbody
    simpa [Term.links, ← FilterOutcome.inFront_append] using this

/-- An admissible filter leads to its chain. -/
theorem Formula.leads : ∀ (f : Formula) {us pre rs : List Piece} {depth opens closes : Nat}
    {o : Option Connective} {r : FilterOutcome}, f.Written us → f.Admissible →
    (0 < opens → f.first.isNegatedGroup = false) → count us ≤ m → Repeated .openParen opens pre →
    After m (depth + opens) closes o rs r →
    Leads m depth (pre ++ (us ++ rs)) (r.inFront (f.links opens closes o))
  | .last t, us, pre, rs, depth, opens, closes, o, r, hw, ha, hs, hm, hp, hr =>
    Term.leads t hw ha hs hm hp hr
  | .join t op rest, us, pre, rs, depth, opens, closes, o, r, hw, ha, hs, hm, hp, hr => by
    obtain ⟨vs, ks, ws, rfl, hv, hk, hrest⟩ := hw
    simp only [count_append] at hm
    have hlater := Formula.leads rest hrest ha.2 (by simp) (by omega) .nil hr
    have := Term.leads t hv ha.1 hs (by omega) hp (.join .nil (Nat.zero_le _) hk hlater)
    simpa [Formula.links, FilterOutcome.inFront_append] using this

end

mutual

theorem Term.rejected : ∀ (t : Term) {us pre : List Piece} {opens : Nat} (depth : Nat)
    (rs : List Piece), t.Written us →
    ¬(t.Admissible ∧ (0 < opens → t.isNegatedGroup = false)) → count us ≤ m →
    Repeated .openParen opens pre → Leads m depth (pre ++ (us ++ rs)) none
  | .condition negated c, us, pre, opens, depth, rs, _, ha, _, _ =>
    absurd ⟨trivial, fun _ => rfl⟩ ha
  | .group false body, us, pre, opens, depth, rs, hw, ha, hm, hp => by
    obtain ⟨_, os, ws, cs, rfl, rfl, ho, hws, hc⟩ := hw
    have hcount : count ws ≤ m := by simp at hm; omega
    have hbody : ¬(body.Admissible ∧ (0 < opens + 1 → body.first.isNegatedGroup = false)) :=
      fun h => ha ⟨⟨h.2 (Nat.succ_pos _), h.1⟩, fun _ => rfl⟩
    have := Formula.rejected body depth (cs ++ rs) hws hbody hcount (hp.snoc ho)
    simpa using this
  | .group true body, us, pre, opens, depth, rs, hw, ha, hm, hp => by
    obtain ⟨ns, os, ws, cs, rfl, hn, ho, hws, hc⟩ := hw
    have hcount : count ws ≤ m := by simp at hm; omega
    rcases Nat.eq_zero_or_pos opens with rfl | hpos
    · obtain rfl := hp.eq_nil
      have hbody : ¬(body.Admissible ∧ (0 < 1 → body.first.isNegatedGroup = false)) :=
        fun h => ha ⟨⟨h.2 Nat.one_pos, h.1⟩, by simp⟩
      have hlater := Formula.rejected body depth (cs ++ rs) hws hbody hcount (.cons ho .nil)
      obtain ⟨w, hw, -⟩ := id hn
      have := Leads.cons (run_link_group m depth hn (by simp [ho.inView_append]))
        (by simp [hw.count]) rfl hlater
      simpa [FilterOutcome.inFront] using this
    · have hview : inView (os ++ (ws ++ (cs ++ rs))) = .openParen := by simp [ho.inView_append]
      have := Leads.reject m depth (front_rejected hp hpos hn hview)
        (by simp only [count_append, ho.count]; omega)
      simpa using this

/-- A filter with a group that starts with the negation of another one is rejected, whatever
    follows it. -/
theorem Formula.rejected : ∀ (f : Formula) {us pre : List Piece} {opens : Nat} (depth : Nat)
    (rs : List Piece), f.Written us →
    ¬(f.Admissible ∧ (0 < opens → f.first.isNegatedGroup = false)) → count us ≤ m →
    Repeated .openParen opens pre → Leads m depth (pre ++ (us ++ rs)) none
  | .last t, us, pre, opens, depth, rs, hw, ha, hm, hp => Term.rejected t depth rs hw ha hm hp
  | .join t op rest, us, pre, opens, depth, rs, hw, ha, hm, hp => by
    obtain ⟨vs, ks, ws, rfl, hv, hk, hrest⟩ := hw
    simp only [count_append] at hm
    by_cases ht : t.Admissible ∧ (0 < opens → t.isNegatedGroup = false)
    · have hbad : ¬(rest.Admissible ∧ (0 < 0 → rest.first.isNegatedGroup = false)) :=
        fun h => ha ⟨⟨ht.1, h.1⟩, ht.2⟩
      have hlater := Formula.rejected rest (depth + opens) rs hrest hbad (by omega) .nil
      have := Term.leads t hv ht.1 ht.2 (by omega) hp (.join .nil (Nat.zero_le _) hk hlater)
      simpa [FilterOutcome.inFront] using this
    · have := Term.rejected t depth (ks ++ (ws ++ rs)) hv ht (by omega) hp
      simpa using this

end

mutual

theorem Term.Written.bare : ∀ (t : Term) {us : List Piece}, t.Written us →
    ∀ c ∈ t.conditions, c.Bare
  | .condition negated c, us, hw => by
    obtain ⟨ns, ws, -, -, hc, -⟩ := hw
    simpa [Term.conditions] using hc.bare
  | .group negated body, us, hw => by
    obtain ⟨ns, os, ws, cs, -, -, -, hbody, -⟩ := hw
    exact Formula.Written.bare body hbody

theorem Formula.Written.bare : ∀ (f : Formula) {us : List Piece}, f.Written us →
    ∀ c ∈ f.conditions, c.Bare
  | .last t, us, hw => Term.Written.bare t hw
  | .join t op rest, us, hw => by
    obtain ⟨vs, ks, ws, -, ht, -, hrest⟩ := hw
    exact List.forall_mem_append.2 ⟨Term.Written.bare t ht, Formula.Written.bare rest hrest⟩

end

theorem Chain.ext_links {κ : Type} {c d : Chain κ} (h : c.links = d.links) : c = d := by
  cases c
  cases d
  cases h
  rfl

/-- **An admissible filter is read as its chain.** -/
theorem Formula.run_filter {f : Formula} {us : List Piece} (hw : f.Written us)
    (ha : f.Admissible) : ∃ chain : Chain Condition, chain.links = f.links 0 0 none ∧
      ∀ m, count us ≤ m → Run (filter (selectUpTo m false)) us chain [] := by
  have hleads (m : Nat) (hm : count us ≤ m) : Leads m 0 us (some (f.links 0 0 none, [])) := by
    have hend : After m 0 0 none [] (some ([], [])) :=
      .last .nil le_rfl (by simp) ⟨rfl, rfl, by simp⟩
    have := Formula.leads f hw ha (by simp) hm .nil hend
    simpa [FilterOutcome.inFront] using this
  obtain ⟨chain, _, hlinks, -⟩ := hleads _ le_rfl _ le_rfl
  refine ⟨chain, hlinks, fun m hm => Run.get fun c hc => ?_⟩
  rw [List.append_nil] at hc
  obtain ⟨chain', vs, hlinks', hvs, hrun⟩ := hleads m hm (c.size + 1) (by omega)
  obtain rfl : chain' = chain := Chain.ext_links (hlinks'.trans hlinks.symm)
  rw [List.append_nil] at hvs
  rw [filterUpTo_eq, hvs]
  exact hrun

/-- **A filter that is not admissible is rejected.** -/
theorem Formula.rejects_filter {f : Formula} {us : List Piece} (hw : f.Written us)
    (ha : ¬ f.Admissible) {m : Nat} (hm : count us ≤ m) :
    Rejects (filter (selectUpTo m false)) us := by
  intro T hT
  have hleads := Formula.rejected f 0 [] hw (fun h => ha h.1) hm .nil
  rw [List.append_nil, List.nil_append] at hleads
  have hsize := count_le_size T us
  have hreject : Rejects (filterUpTo (selectUpTo m false) ((cursor T us).size + 1) 0) us := by
    rw [filterUpTo_eq]
    exact hleads _ (by omega)
  exact hreject T hT

end Filters

end Soql
