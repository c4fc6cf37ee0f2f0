import SingleTape.Proofs.Attempt
import SingleTape.Proofs.Json.Reading

/-!
# Records

Which values a record has: those of an array of just these values, or those that an object has under
the names of the record, wherever they stand and whatever other names there are. An object that is
written out is read as such a record.
-/

namespace SingleTape.Json.Value

def namesOf (fields : List (String × Value)) : List String := fields.map Prod.fst

/-- The field of an object, whose key has pieces, is this field, whose name is a text. -/
def Named (f : List Piece × Value) (g : String × Value) : Prop :=
  piecesText? f.1 = some g.1 ∧ f.2 = g.2

/-- The value is that of a record with these parts. An object has each of them once, in any order,
and may have more fields under other names. -/
inductive Records (parts : List (String × Value)) : Value → Prop
  | array : Records parts (.array (parts.map Prod.snd))
  | object {fields : List (List Piece × Value)} {named unknown : List (String × Value)}
      (hkeys : List.Forall₂ Named fields named)
      (hperm : named.Perm (parts ++ unknown)) (hunknown : ∀ f ∈ unknown, f.1 ∉ namesOf parts) :
      Records parts (.object fields)

/-- The value gives another one under a name that stands among the names of a record. -/
inductive HasField (names : List String) (name : String) (w : Value) : Value → Prop
  | array {items : List Value} (h : items[names.idxOf name]? = some w) :
      HasField names name w (.array items)
  | object {fields : List (List Piece × Value)} {key : List Piece}
      (hkey : piecesText? key = some name) (h : (key, w) ∈ fields) :
      HasField names name w (.object fields)

variable {parts named unknown : List (String × Value)}

/-- A member whose key spells a name is listed under that name. -/
theorem mem_of_named {fields : List (List Piece × Value)}
    (h : List.Forall₂ Named fields named) {key : List Piece} {name : String} {w : Value}
    (hkey : piecesText? key = some name) (hf : (key, w) ∈ fields) : (name, w) ∈ named := by
  induction h with
  | nil => cases hf
  | @cons f g fields named hfirst _ ih =>
    rcases List.mem_cons.mp hf with rfl | hf
    · obtain ⟨hname, hvalue⟩ := hfirst
      rw [hkey, Option.some_inj] at hname
      rw [show (name, w) = g from Prod.ext hname hvalue]
      exact List.mem_cons_self
    · exact List.mem_cons_of_mem g (ih hf)

/-- A field is found when exactly one member bears its name. -/
theorem field?_eq_some_iff {name : String} {v : Value} :
    field? named name = some v ↔ named.filter (·.1 = name) = [(name, v)] := by
  unfold field?
  split
  case h_1 key w hfilter =>
    have hkey : key = name := by
      have hmem : (key, w) ∈ named.filter (·.1 = name) := hfilter ▸ List.mem_cons_self
      exact of_decide_eq_true (List.mem_filter.mp hmem).2
    rw [hfilter, hkey]
    simp
  case h_2 hnone => exact iff_of_false (fun h => nomatch h) (hnone name v)

theorem filter_name_eq_nil {name : String} (h : name ∉ namesOf named) :
    named.filter (·.1 = name) = [] := by
  refine List.filter_eq_nil_iff.mpr fun f hf hname => h ?_
  exact of_decide_eq_true hname ▸ List.mem_map_of_mem hf

theorem filter_name_eq_singleton (hparts : (namesOf parts).Nodup)
    {f : String × Value} (hf : f ∈ parts) : parts.filter (·.1 = f.1) = [f] := by
  obtain ⟨before, after, rfl⟩ := List.append_of_mem hf
  have hnodup : (namesOf before ++ f.1 :: namesOf after).Nodup := by
    rw [namesOf, List.map_append] at hparts
    exact hparts
  have hf : f.1 ∉ namesOf before ++ namesOf after :=
    (List.nodup_cons.mp (List.perm_middle.nodup_iff.mp hnodup)).1
  have hself : (f :: after).filter (·.1 = f.1) = f :: after.filter (·.1 = f.1) :=
    List.filter_cons_of_pos (decide_eq_true rfl)
  rw [List.filter_append, hself, filter_name_eq_nil fun h => hf (List.mem_append_left _ h),
    filter_name_eq_nil fun h => hf (List.mem_append_right _ h)]
  rfl

/-- Fields in which each part stands just once are the parts and others under other names. -/
theorem exists_unknown (hparts : (namesOf parts).Nodup)
    (h : ∀ f ∈ parts, named.filter (·.1 = f.1) = [f]) :
    ∃ unknown, named.Perm (parts ++ unknown) ∧ ∀ f ∈ unknown, f.1 ∉ namesOf parts := by
  -- By induction on the parts: one is taken out of the fields, and its name is not among the
  -- others.
  induction parts generalizing named with
  | nil => exact ⟨named, .refl _, fun f _ => List.not_mem_nil⟩
  | cons p parts ih =>
    obtain ⟨hp, hparts⟩ := List.nodup_cons.mp hparts
    obtain ⟨hfirst, hothers⟩ := List.forall_mem_cons.mp h
    have hrest : ∀ f ∈ parts,
        (named.filter fun f => !decide (f.1 = p.1)).filter (·.1 = f.1) = [f] := by
      intro f hf
      have hne : f.1 ≠ p.1 := fun heq => hp (heq ▸ List.mem_map_of_mem hf)
      rw [List.filter_filter, ← hothers f hf]
      refine List.filter_congr fun g _ => ?_
      by_cases hg : g.1 = f.1
      · simp [hg, hne]
      · simp [hg]
    obtain ⟨unknown, hperm, hunknown⟩ := ih hparts hrest
    have hsplit := List.filter_append_perm (fun f : String × Value => decide (f.1 = p.1)) named
    rw [hfirst] at hsplit
    refine ⟨unknown, hsplit.symm.trans (hperm.cons p), fun f hf hname => ?_⟩
    rcases List.mem_cons.mp hname with heq | hmem
    · have hout : f ∈ named.filter fun f => !decide (f.1 = p.1) :=
        hperm.mem_iff.mpr (List.mem_append_right _ hf)
      simpa [heq] using (List.mem_filter.mp hout).2
    · exact hunknown f hf hmem

/-- Members in another order, with unknown ones among them, still have one for each part. -/
theorem filter_name_of_perm (hparts : (namesOf parts).Nodup)
    (hperm : named.Perm (parts ++ unknown)) (hunknown : ∀ f ∈ unknown, f.1 ∉ namesOf parts)
    {f : String × Value} (hf : f ∈ parts) : named.filter (·.1 = f.1) = [f] := by
  have hothers : f.1 ∉ namesOf unknown := by
    intro h
    obtain ⟨g, hg, hname⟩ := List.mem_map.mp h
    exact hunknown g hg (hname ▸ List.mem_map_of_mem hf)
  have hfilter := hperm.filter (fun g => decide (g.1 = f.1))
  rw [List.filter_append, filter_name_eq_singleton hparts hf, filter_name_eq_nil hothers] at hfilter
  exact List.perm_singleton.mp hfilter

/-- All parts are found exactly when each of them has its one member. -/
theorem mapM_field?_eq_some_iff :
    (namesOf parts).mapM (field? named) = some (parts.map Prod.snd) ↔
      ∀ f ∈ parts, named.filter (·.1 = f.1) = [f] := by
  rw [mapM_eq_some_iff, namesOf, List.forall₂_map_left_iff, List.forall₂_map_right_iff,
    List.forall₂_same]
  exact forall₂_congr fun f _ => field?_eq_some_iff

/-- Reading a record gives the values of its parts, in the order of the names that are asked for. -/
theorem record?_eq_some_iff (hparts : (namesOf parts).Nodup) {v : Value} :
    v.record? (namesOf parts) = some (parts.map Prod.snd) ↔ Records parts v := by
  -- A field is read with its name just if its key has a text.
  have hnamed : ∀ (f : List Piece × Value) (g : String × Value),
      (piecesText? f.1 >>= fun key => some (key, f.2)) = some g ↔ Named f g := by
    intro f g
    rw [Option.bind_eq_bind, Option.bind_eq_some_iff]
    constructor
    · rintro ⟨key, hkey, heq⟩
      cases heq
      exact ⟨hkey, rfl⟩
    · rintro ⟨hkey, hvalue⟩
      exact ⟨g.1, hkey, by rw [hvalue]⟩
  constructor
  · intro h
    cases v with
    | array items =>
      change (if items.length = (namesOf parts).length then some items else none) = _ at h
      split at h
      · cases h
        exact .array
      · cases h
    | object fields =>
      obtain ⟨named, hkeys, h⟩ := Option.bind_eq_some_iff.mp h
      obtain ⟨unknown, hperm, hunknown⟩ := exists_unknown hparts (mapM_field?_eq_some_iff.mp h)
      exact .object ((mapM_eq_some_iff.mp hkeys).imp fun f g => (hnamed f g).mp) hperm hunknown
    | _ => cases h
  · intro h
    cases h with
    | array =>
      have hlength : (parts.map Prod.snd).length = (namesOf parts).length := by
        rw [namesOf, List.length_map, List.length_map]
      exact if_pos hlength
    | object hkeys hperm hunknown =>
      have hfields := mapM_eq_some_iff.mpr (hkeys.imp fun f g => (hnamed f g).mpr)
      have hvalues := mapM_field?_eq_some_iff.mpr fun f hf =>
        filter_name_of_perm hparts hperm hunknown hf
      exact Option.bind_eq_some_iff.mpr ⟨_, hfields, hvalues⟩

/-- A record gives nothing under its names but its parts. -/
theorem Records.mem_of_hasField {v w : Value} {name : String}
    (h : Records parts v) (hw : HasField (namesOf parts) name w v) (hname : name ∈ namesOf parts) :
    (name, w) ∈ parts := by
  cases h with
  | array =>
    cases hw with
    | array hw =>
      rw [List.getElem?_map, Option.map_eq_some_iff] at hw
      obtain ⟨p, hp, rfl⟩ := hw
      have hat := List.getElem?_idxOf hname
      rw [namesOf, List.getElem?_map, ← namesOf, hp, Option.map_some, Option.some_inj] at hat
      exact hat ▸ List.mem_of_getElem? hp
  | object hkeys hperm hunknown =>
    cases hw with
    | object hkey hf =>
      have hmem := hperm.mem_iff.mp (mem_of_named hkeys hkey hf)
      exact (List.mem_append.mp hmem).resolve_right fun hmem => hunknown _ hmem hname

end SingleTape.Json.Value

namespace SingleTape.Json

/-! ## Written records -/

/-- The member of an object is written under the name of the part, with its value. -/
def WritesPart (f : String × String) (p : String × Value) : Prop :=
  f.1 = p.1 ∧ Writes f.2.toList p.2

variable {fs : List (String × String)} {parts : List (String × Value)}

/-- An object is read as one with the same names in the same order. -/
theorem exists_named (h : List.Forall₂ WritesPart fs parts) :
    ∃ fields, Value.parse? (object fs) = some (.object fields) ∧
      List.Forall₂ Value.Named fields parts := by
  have hmembers : List.Forall₂ WritesMember fs (parts.map fun p => (piecesOf p.1, p.2)) := by
    rw [List.forall₂_map_right_iff]
    exact h.imp fun f p hp => ⟨by rw [hp.1], hp.2⟩
  have hkeys : List.Forall₂ Value.Named (parts.map fun p => (piecesOf p.1, p.2)) parts := by
    rw [List.forall₂_map_left_iff, List.forall₂_same]
    exact fun p _ => ⟨Value.piecesText?_piecesOf p.1, rfl⟩
  exact ⟨_, (writes_object hmembers).parse?_eq, hkeys⟩

/-- A written object is parsed as a record of its parts. -/
theorem exists_records (h : List.Forall₂ WritesPart fs parts) :
    ∃ v, Value.parse? (object fs) = some v ∧ Value.Records parts v := by
  obtain ⟨fields, hparse, hkeys⟩ := exists_named h
  have hperm : parts.Perm (parts ++ []) := .of_eq (List.append_nil parts).symm
  exact ⟨_, hparse, .object hkeys hperm fun f hf => nomatch hf⟩

end SingleTape.Json
