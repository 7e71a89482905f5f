/-
  The fields and the source of a query, read and read back.

  * `EndsAlias`: what may follow an alias, or a name without one.
  * `reads_field`: an entry of a field list under every layout.
  * `reads_aliasedSource`: the source with its alias.
-/
import Mathlib
import Soql.Proofs.Parse.Clauses

namespace Soql

open Unicode Token Soql.Parser

/-! ## Aliases -/

/-- What may follow an alias, or a name without one. -/
def EndsAlias (t : Token) : Prop := EndsName t ∧ ∀ w, t = .word w → isReserved w = true

theorem endsAlias_comma : EndsAlias .comma := ⟨by simp [EndsName], by simp⟩

theorem endsAlias_word {w : Text} (h : isReserved w = true) : EndsAlias (.word w) := by
  refine ⟨by simp [EndsName], ?_⟩
  rintro _ ⟨⟩
  exact h

theorem IsEnd.endsAlias {t : Token} (h : IsEnd t) : EndsAlias t := by
  rcases h with rfl | rfl <;> exact ⟨by simp [EndsName], by simp⟩

/-- The alias, if there is one, is read as such. -/
def IsAlias (a : Option Text) : Prop := ∀ w ∈ a, (word w).Proper ∧ isReserved w = false

theorem aliased_eq (t : Text) (a : Option Text) : aliased t a = t ++ a.elim [] (' ' :: ·) := by
  cases a <;> simp [aliased]

namespace Parser

theorem reads_alias : Reads aliasName? fun us a _ => literals us = [] ∧ IsAlias a := by
  refine reads_aliasName.mono ?_
  rintro us a ds (⟨rfl, rfl⟩ | ⟨w, rfl, hs, hr⟩)
  · exact ⟨rfl, by simp [IsAlias]⟩
  · refine ⟨hs.literals, ?_⟩
    rintro _ ⟨⟩
    exact ⟨hs.proper, hr⟩

theorem exists_alias {a : Option Text} (h : IsAlias a) :
    ∃ ws, TrailPieces (a.elim [] (' ' :: ·)) ws ∧ ∀ ds, EndsAlias (inView ds) →
      EndsName (inView (ws ++ ds)) ∧ Run aliasName? ws a ds := by
  cases a with
  | none => exact ⟨[], .nil, fun ds hds => ⟨hds.1, run_aliasName_none hds.2⟩⟩
  | some w =>
    obtain ⟨hp, hr⟩ := h w rfl
    refine ⟨_, TrailPieces.space (PlainPieces.token hp rfl), fun ds _ => ⟨by simp [EndsName], ?_⟩⟩
    exact (run_aliasName (Single.token hp) hr ds).blank_append blank_space

/-! ## Paths -/

theorem exists_path {w : Text} {ws : List Text} (hw : (word w).Proper)
    (h : ∀ v ∈ ws, (word v).Proper) :
    ∃ rs, PlainPieces (Text.joinWith "." (w :: ws)) ([Piece.token (.word w) hw] ++ rs) ∧
      ∀ ds, EndsName (inView ds) → inView (rs ++ ds) ≠ .openParen ∧ Run pathRest rs ws ds := by
  refine ⟨dottedPieces ws h, ⟨spell_pathPieces hw h, closed_pathPieces hw h,
    literals_pathPieces hw h, ?_, tight_pathPieces hw h, by simp⟩, fun ds hds =>
      ⟨inView_dottedPieces_ne h (by simp) hds.2, run_dottedPieces h hds.1⟩⟩
  rw [← spell_pathPieces hw h]
  exact not_mem_pathPieces hw h

/-- A path is read back from its names. -/
theorem plain_path {w : Text} {ws : List Text} (hw : (word w).Proper)
    (h : ∀ v ∈ ws, (word v).Proper) :
    Plain path (fun _ => True) EndsName (w, ws) (Text.joinWith "." (w :: ws)) := by
  obtain ⟨rs, hpieces, hrun⟩ := exists_path hw h
  refine ⟨_, hpieces, trivial, fun ds hds => ?_⟩
  exact (run_identifier (Single.token hw) _ _).bind ((hrun ds hds).2.bind_pure fun ws => (w, ws))

theorem reads_path : Reads path fun us r _ => literals us = [] ∧ (word r.1).Proper ∧
    ∀ v ∈ r.2, (word v).Proper := by
  refine ((reads_identifier _).bind fun w => reads_pathRest.bind fun ws =>
    Reads.pure (w, ws)).mono ?_
  rintro us _ ds ⟨us, w, _, rfl, hs, rs, ws, _, rfl, hrs, rfl, rfl⟩
  exact ⟨by simp [hs.literals, hrs.1, literal?], hs.proper, hrs.2.1⟩

theorem pathNames_lastName (w : Text) (ws : List Text) :
    pathNames w ws ++ [lastName w ws] = w :: ws :=
  List.dropLast_append_getLast (List.cons_ne_nil w ws)

/-! ## The source -/

/-- The source with its alias. -/
def aliasedSource (isNested : Bool) : Parser (Source × Option Text) :=
  both (source isNested) aliasName?

/-- The source that a path names. -/
def sourceOf (isNested : Bool) (r : Text × List Text) : Source :=
  if isNested then .relationship (lastName r.1 r.2) (pathNames r.1 r.2)
  else .object (Text.joinWith "." (r.1 :: r.2))

theorem source_eq (isNested : Bool) :
    source isNested = path >>= fun r => pure (sourceOf isNested r) := by
  cases isNested <;> rfl

theorem sourceText_sourceOf (isNested : Bool) (r : Text × List Text) (a : Option Text) :
    sourceText (sourceOf isNested r) a = aliased (Text.joinWith "." (r.1 :: r.2)) a := by
  cases isNested with
  | false => rfl
  | true =>
    rw [← pathNames_lastName r.1 r.2]
    rfl

/-- The source and its alias are read back. -/
theorem reads_aliasedSource (isNested : Bool) : Reads (aliasedSource isNested) fun us x _ =>
    literals us = [] ∧ Plain (aliasedSource isNested) (fun _ => True) EndsAlias x
      (sourceText x.1 x.2) := by
  unfold aliasedSource
  simp only [both, source_eq]
  refine ((reads_path.bind fun r => Reads.pure (sourceOf isNested r)).bind fun s =>
    reads_alias.bind fun a => Reads.pure (s, a)).mono ?_
  rintro us _ ds ⟨_, _, _, rfl, ⟨us, r, _, rfl, ⟨hl, hw, hws⟩, rfl, rfl⟩, as, a, _, rfl,
    ⟨hla, ha⟩, rfl, rfl⟩
  refine ⟨by simp [hl, hla], ?_⟩
  obtain ⟨vs, hvs, -, hrun⟩ := plain_path hw hws
  obtain ⟨zs, hzs, hrun'⟩ := exists_alias ha
  rw [sourceText_sourceOf, aliased_eq]
  refine ⟨_, hvs.trail hzs, trivial, fun ds hds => ?_⟩
  obtain ⟨hname, halias⟩ := hrun' ds hds
  exact ((hrun _ hname).bind_pure (sourceOf isNested)).bind
    (halias.bind_pure fun a => (sourceOf isNested r, a))

end Parser

/-! ## Fields of the source -/

/-- An alias of the source makes a path another path or a plain field, and leaves the other fields
    as they are. -/
theorem Field.apply_qualify {α : Type} {g : Field → α} {x : α} (hplain : ∀ f, g (.plain f) = x)
    (hpath : ∀ f, g (.path f) = x) (a : Text) (f : Field) : g (f.qualify a) = g f := by
  unfold Field.qualify
  split
  · split
    · split
      · split <;> simp only [hplain, hpath]
      · rfl
    · rfl
  · rfl

theorem Field.forgetSources_qualify (a : Text) (f : Field) :
    (f.qualify a).forgetSources = f.forgetSources.qualify a := by
  cases f with
  | path f =>
    simp only [Field.qualify, Field.forgetSources]
    split
    · split
      · split <;> rfl
      · rfl
    · rfl
  | plain | call | subquery | typeOf => rfl

namespace Parser

/-- The field that a path and an alias stand for. -/
def fieldOf (name : Text) (others : List Text) (aliasName : Option Text) : Field :=
  match others with
  | [] => .plain { name, aliasName }
  | _ => .path { name := lastName name others, path := pathNames name others, aliasName }

theorem value_fieldOf (l : Layout) (name : Text) (others : List Text) (a : Option Text) :
    (Compose.field l (fieldOf name others a)).value =
      aliased (Text.joinWith "." (name :: others)) a := by
  cases others with
  | nil => simp [fieldOf, Compose.field, PlainField.text, qualified, Text.joinWith]
  | cons n ns =>
    rw [← pathNames_lastName name (n :: ns)]
    rfl

theorem fieldOf_cons (name n : Text) (ns : List Text) (a : Option Text) :
    fieldOf name (n :: ns) a = .path { name := lastName n ns, path := name :: pathNames n ns
                                       aliasName := a } := by
  have hlast : lastName name (n :: ns) = lastName n ns := List.getLast_cons _
  have hnames : pathNames name (n :: ns) = name :: pathNames n ns := rfl
  rw [← hlast, ← hnames]
  rfl

/-- The alias of the source that a path starts with is part of its text as before. -/
theorem value_qualify_fieldOf (l : Layout) (name : Text) (others : List Text) (a : Option Text)
    (owner : Text) : (Compose.field l ((fieldOf name others a).qualify owner)).value =
      (Compose.field l (fieldOf name others a)).value := by
  cases others with
  | nil => rfl
  | cons n ns =>
    rw [fieldOf_cons]
    simp only [Field.qualify]
    split
    · cases hp : pathNames n ns with
      | nil => simp [Compose.field, PlainField.text, PathField.text, qualified, Text.joinWith]
      | cons m ms =>
        simp [Compose.field, PathField.text, qualified, Text.joinWith]
    · rfl

/-- A field that starts with a name: a call, or a path. -/
def namedField : Parser Field := do
  let first ← current
  let name ← identifier .field
  if ← atToken .openParen then
    let call ← call first name
    return .call { call with aliasName := ← aliasName? }
  else
    let others ← pathRest
    let aliasName ← aliasName?
    return fieldOf name others aliasName

theorem field_eq (nested : Parser Query) : field nested = (do
    if ← atToken .openParen then
      let _ ← advance
      let query ← nested
      let _ ← expect .closeParen .subqueryClose
      return .subquery query
    else if ← eatKeyword "TYPEOF" then return .typeOf (← typeOf)
    else namedField) := by
  unfold field namedField
  refine bind_congr fun isOpen => ?_
  cases isOpen with
  | true => rfl
  | false =>
    refine bind_congr fun isTypeOf => ?_
    cases isTypeOf with
    | true => rfl
    | false =>
      refine bind_congr fun first => bind_congr fun name => bind_congr fun isCall => ?_
      cases isCall with
      | true => rfl
      | false =>
        refine bind_congr fun others => bind_congr fun a => ?_
        cases others <;> rfl

/-- What may follow a field. -/
def EndsField (t : Token) : Prop := t = .comma ∨ t = .word "FROM"

theorem EndsField.endsAlias {t : Token} (h : EndsField t) : EndsAlias t := by
  rcases h with rfl | rfl
  · exact endsAlias_comma
  · exact endsAlias_word (by decide)

/-- A field that was read from `us` is read back. -/
structure FieldPhrase (us : List Piece) (f : Field) : Prop where
  literals : literals us = stringsAt 0 f.parts
  feeds : Feeds f.parts
  qualify : ∀ owner l, (Compose.field l (f.qualify owner)).value = (Compose.field l f).value
  laid : Laid (fun m _ => field (selectUpTo m true)) EndsField
    (fun f' => f'.forgetSources = f.forgetSources) f.parts (fun vs => vs ≠ [] ∧ Tight vs)
    fun l => (Compose.field l f).value

/-- Fields without parts. -/
theorem FieldPhrase.plain {us vs : List Piece} {f : Field} {t : Text} (hl : Soql.literals us = [])
    (hparts : f.parts = []) (hqualify : ∀ owner l,
      (Compose.field l (f.qualify owner)).value = (Compose.field l f).value)
    (ht : ∀ l, (Compose.field l f).value = t) (hvs : PlainPieces t vs)
    (hrun : ∀ nested ds, EndsField (inView ds) → Run (field nested) vs f ds) :
    FieldPhrase us f := by
  refine ⟨by rw [hl, hparts]; rfl, hparts ▸ feeds_nil, hqualify, ?_⟩
  rw [hparts]
  refine ((PlainPieces.laid hvs fun m _ => hrun (selectUpTo m true)).mono (fun _ => id) ?_ ?_).congr
    fun l _ _ => (ht l).symm
  · rintro _ rfl
    rfl
  · rintro _ rfl
    exact ⟨hvs.ne_nil, hvs.tight⟩

theorem run_field_query {nested : Parser Query} {os us cs ds : List Piece} {q : Query}
    (ho : Single .openParen os) (hc : Single .closeParen cs) (h : Run nested us q (cs ++ ds)) :
    Run (field nested) (os ++ (us ++ cs)) (.subquery q) ds := by
  rw [field_eq]
  exact run_ifToken ho (h.upTo hc _ Field.subquery)

theorem run_field_named {nested : Parser Query} {vs ds : List Piece} {w : Text} {f : Field}
    (hv : inView (vs ++ ds) = .word w) (hw : Text.sameWord w "TYPEOF" = false)
    (h : Run namedField vs f ds) : Run (field nested) vs f ds := by
  rw [field_eq]
  refine Run.answer (run_atToken _ _) ?_
  rw [hv]
  refine Run.answer (run_eatKeyword_false ?_) h
  rw [hv]
  exact hw

/-- A path with its alias. -/
theorem FieldPhrase.path {us : List Piece} {w : Text} {ws : List Text} {a : Option Text}
    (hl : Soql.literals us = []) (hw : (word w).Proper) (hws : ∀ v ∈ ws, (word v).Proper)
    (ha : IsAlias a) (ht : Text.sameWord w "TYPEOF" = false) :
    FieldPhrase us (fieldOf w ws a) := by
  obtain ⟨rs, hrs, hrun⟩ := exists_path hw hws
  obtain ⟨zs, hzs, hrun'⟩ := exists_alias ha
  refine .plain hl (by cases ws <;> rfl) (fun owner l => value_qualify_fieldOf l w ws a owner)
    (fun l => (value_fieldOf l w ws a).trans (aliased_eq _ _)) (hrs.trail hzs)
    fun nested ds hds => run_field_named (w := w) rfl ht ?_
  obtain ⟨hname, halias⟩ := hrun' ds hds.endsAlias
  obtain ⟨hopen, hpath⟩ := hrun (zs ++ ds) hname
  rw [List.append_assoc]
  refine run_path (Single.token hw) (by simpa using hopen) ?_
  exact hpath.bind (halias.bind_pure fun a => fieldOf w ws a)

theorem FieldPhrase.typeOf {us : List Piece} {e : TypeOf} {t : Text}
    (hl : Soql.literals us = []) (ht : e.text = "TYPEOF" ++ " " ++ t)
    (h : Plain Parser.typeOf (fun _ => True) (fun _ => True) e t) : FieldPhrase us (.typeOf e) := by
  have hword : isPlainWord "TYPEOF" = true := by decide
  obtain ⟨vs, hvs, -, hrun⟩ := h
  refine .plain hl rfl (fun _ _ => rfl) (fun _ => ht)
    ((PlainPieces.token (proper_of_isPlainWord hword) rfl).join hvs) fun nested ds _ => ?_
  rw [field_eq]
  refine Run.answer (run_atToken _ _) ?_
  refine (run_eatKeyword (isKeyword_keyword _ hword) _).bind ?_
  exact ((hrun ds trivial).blank_append blank_space).bind_pure Field.typeOf

/-- The call with its alias. -/
def withAlias (a : Option Text) (c : Call) : Call := { c with aliasName := a }

theorem value_call (l : Layout) (name : Text) (args : List Argument) (source : Text)
    (a : Option Text) : (Compose.call l (withAlias a (.written name args source))).value =
      aliased (name ++ "(" ++ Text.joinWith "," (Compose.arguments l args).value ++ ")") a := by
  simp [withAlias, Call.written, Call.ofParts, Compose.call]

theorem tight_call {name : Text} (hp : (word name).Proper) (vs : List Piece) :
    Tight ([Piece.token (.word name) hp] ++ callPieces vs) := by
  have := (tight_token _ hp).append (tight_mark .closeParen rfl) (by simp) (by simp)
    ([Piece.openParen] ++ vs)
  simpa [callPieces] using this

section Call

variable {name : Text} {us os as cs ws : List Piece} {a : Option Text}

/-- A call with its alias, read from other pieces of its arguments. -/
theorem phrase_call {args : List Argument} {vs zs : List Piece} (h : Single (.word name) us)
    (ho : Single .openParen os) (hc : Single .closeParen cs) (hr : Rewrites as vs)
    (hrun : ArgumentsRun vs args) (hl : Soql.literals ws = [])
    (hzs : TrailPieces (a.elim [] (' ' :: ·)) zs)
    (halias : ∀ ds, EndsAlias (inView ds) → EndsName (inView (zs ++ ds)) ∧ Run aliasName? zs a ds)
    (ht : Text.sameWord name "TYPEOF" = false) (nested : Parser Query) :
    Phrase (field nested) EndsField [name ++ spell (os ++ (as ++ cs))]
      (us ++ (os ++ (as ++ cs)) ++ ws)
      (.call (withAlias a (.written name args (name ++ spell (callPieces vs)))))
      ([Piece.token (.word name) h.proper] ++ callPieces vs ++ zs) := by
  have hr' := Rewrites.call h ho hc hr
  have hview : inView (us ++ (os ++ (as ++ cs)) ++ ws) = .word name := by
    rw [List.append_assoc]
    exact h.inView_append _
  refine ⟨hr'.closed.append hzs.closed (hzs.spell ▸ hzs.clean), ?_, hview.symm, by rw [hview]; simp,
    hzs.tight (tight_call h.proper vs) (by simp), fun hm => ?_,
    fun ds hds => run_field_named (w := name) rfl ht ?_⟩
  · rw [literals_append, hr'.literals, hzs.literals, literals_append _ ws, hl]
  · have hin : '\n' ∈ spell vs := by
      have hname := not_mem_word h.proper
      have htrail := hzs.spell ▸ hzs.feeds
      simp_all [spelling]
    exact ⟨name ++ spell (os ++ (as ++ cs)), by simp, by simp [hr.feeds hin]⟩
  · obtain ⟨hname, halias⟩ := halias ds hds.endsAlias
    exact run_call (Single.token h.proper) (Single.mark .openParen rfl)
      (Single.mark .closeParen rfl) hrun (halias.bind_pure fun a => Field.call (withAlias a _))

/-- A call with its alias. -/
theorem FieldPhrase.call {args : List Argument} (h : Single (.word name) us)
    (ho : Single .openParen os) (hc : Single .closeParen cs) (hargs : ArgumentsPhrase as args)
    (hl : Soql.literals ws = []) (ha : IsAlias a) (ht : Text.sameWord name "TYPEOF" = false) :
    FieldPhrase (us ++ (os ++ (as ++ cs)) ++ ws)
      (.call (withAlias a (.written name args (name ++ spell (os ++ (as ++ cs)))))) := by
  obtain ⟨vs, args', hvs, hr, -, hforget, hrun⟩ := hargs.composed
  obtain ⟨zs, hzs, halias⟩ := exists_alias ha
  have hphrase := phrase_call h ho hc hr hrun hl hzs halias ht
  have hspell (l : Layout) : spell ([Piece.token (.word name) h.proper] ++ callPieces vs ++ zs) =
      (Compose.call l
        (withAlias a (.written name args (name ++ spell (os ++ (as ++ cs)))))).value := by
    rw [value_call, ← hvs l, aliased_eq, spell_append, hzs.spell]
    simp [spelling]
  refine ⟨?_, ?_, fun _ _ => rfl, ?_⟩
  · rw [(hphrase query).literals_eq, hspell .plain]
    exact (stringsAt_top 0 (.call _)).symm
  · exact (hphrase query).feeds_part (p := .call _) (hspell .plain)
  · have hlaid := Phrase.laid (p := .call _) (fun m => hphrase (selectUpTo m true)) (hspell .plain)
    refine (hlaid.mono (fun _ => id) ?_ fun vs hs =>
      ⟨ne_nil_of_inView (hs.ne_finish (hphrase query).starts), hs.2⟩).congr
      fun l _ _ => (hspell .plain).symm.trans (hspell l)
    rintro _ rfl
    simp [Field.forgetSources, withAlias, Call.written, Call.ofParts, Call.forgetSources, hforget]

end Call

/-- A query between parentheses. -/
theorem FieldPhrase.subquery {us os cs : List Piece} {q : Query} (ho : Single .openParen os)
    (h : QueryPhrase true us q .closeParen) (hc : Single .closeParen cs) :
    FieldPhrase (os ++ (us ++ cs)) (.subquery q) := by
  refine ⟨?_, ?_, fun _ _ => rfl, fun l k hl => ?_⟩
  · simp [Field.parts, ho.literals, hc.literals, h.literals, literal?]
  · simpa [Field.parts] using h.feeds
  · obtain ⟨vs, hsp, hcl, hlit, hview, htight, hrun⟩ := h.subquery 2 false hl
    refine ⟨vs, hsp, hcl, hlit, ⟨ne_nil_of_inView (by simp [hview]), htight⟩, fun i hi => ?_⟩
    obtain ⟨p, hp, ws, cs', heq, -, hcs, hrun⟩ := hrun i hi
    refine ⟨.subquery p, by simp [Field.forgetSources, hp], fun m n hm hn ds _ => ?_⟩
    rw [heq]
    exact run_field_query (Single.mark .openParen rfl) hcs (hrun m (by omega) ds)

theorem reads_namedField : Reads namedField fun us f ds =>
    (inView (us ++ ds)).isKeyword "TYPEOF" = false → FieldPhrase us f := by
  have hcall (r : Call) := reads_alias.bind fun a => Reads.pure (Field.call (withAlias a r))
  have hpath (name : Text) := reads_pathRest.bind fun others => reads_alias.bind fun a =>
    Reads.pure (fieldOf name others a)
  refine (Reads.named hcall hpath).mono ?_
  rintro _ _ ds (⟨_, _, _, rfl, ⟨hs, ho, hc, ha, -⟩, ws, a, _, rfl, ⟨hl, halias⟩, rfl, rfl⟩ |
    ⟨us, name, _, rfl, hs, -, rs, others, _, rfl, hrs, ws, a, _, rfl, ⟨hl, halias⟩, rfl, rfl⟩) ht
  · rw [List.append_nil]
    simp only [List.append_assoc, hs.inView_append] at ht
    exact .call hs ho hc ha hl halias ht
  · rw [List.append_assoc, hs.inView_append] at ht
    refine .path ?_ hs.proper hrs.2.1 halias ht
    simp [hs.literals, hrs.1, hl, literal?]

/-- **A field is read back.** -/
theorem reads_field {nested : Parser Query} (hn : ReadsQuery nested true) :
    Reads (field nested) fun us f _ => FieldPhrase us f := by
  rw [field_eq]
  have hname := Reads.ifKeyword (k := "TYPEOF") (g := fun b => if b then _ else namedField)
    (reads_typeOf.bind fun e => Reads.pure (Field.typeOf e)) reads_namedField
  refine (Reads.ifToken (by simp) (hn.upToClose .subqueryClose Field.subquery) hname).mono ?_
  rintro _ _ ds (⟨os, _, rfl, ho, us, cs, q, rfl, hq, hcs, rfl⟩ |
    ⟨-, ⟨ks, _, rfl, hk, us, e, _, rfl, ⟨hl, t, ht, hplain⟩, rfl, rfl⟩ | ⟨hview, h⟩⟩)
  · exact .subquery ho hq hcs
  · exact .typeOf (by simp [hk.literals, hl]) ht hplain
  · exact h hview

/-! ## Field lists -/

theorem value_fields (l : Layout) (fs : List Field) :
    (Compose.fields l fs).value = fs.map fun f => (Compose.field l f).value := by
  induction fs with
  | nil => rfl
  | cons f fs ih => simp [Compose.fields, ih]

theorem partsAll_eq (fs : List Field) : Field.partsAll fs = fs.flatMap Field.parts := by
  induction fs with
  | nil => rfl
  | cons f fs ih => rw [Field.partsAll, ih, List.flatMap_cons]

theorem forgetAll_eq (fs : List Field) : Field.forgetAll fs = fs.map Field.forgetSources := by
  induction fs with
  | nil => rfl
  | cons f fs ih => rw [Field.forgetAll, ih, List.map_cons]

end Parser

end Soql
