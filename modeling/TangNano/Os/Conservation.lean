import TangNano.Os.World

/-!
# Nothing is lost

In a well-formed world every entity stands in the list of the location it
names.  Commands move objects between lists and entities between locations;
the objects of all lists together stay the same.
-/

namespace TangNano.Os

open Finset (range)

/-- There is a result, and it is such. -/
def Yields (Q : State → Prop) (x : Option State) : Prop := ∃ os, x = some os ∧ Q os

section Yields

variable {Q Q' : State → Prop} {x y : Option State}

theorem Yields.some {os : State} (h : Q os) : Yields Q (some os) := ⟨os, rfl, h⟩

theorem Yields.map (h : Yields Q x) {g : State → State} (hg : ∀ os, Q os → Q' (g os)) :
    Yields Q' (x.map g) := by
  obtain ⟨os, rfl, hos⟩ := h
  exact .some (hg os hos)

theorem Yields.ite {c : Prop} [Decidable c] (hx : Yields Q x) (hy : Yields Q y) :
    Yields Q (if c then x else y) := by
  by_cases hc : c
  · rwa [if_pos hc]
  · rwa [if_neg hc]

end Yields

/-! ## Names that are sent -/

/-- A text whose characters are all such. -/
def SomeText (P : Byte → Prop) (name : Option Text) : Prop :=
  ∃ text, name = some text ∧ ∀ ch ∈ text, P ch

theorem sendName_some {P : Byte → Prop} {name : Option Text} (h : SomeText P name) (os : State) :
    ∃ out, os.sendName name = some (os.stringPrint out) ∧ ∀ ch ∈ out, P ch := by
  obtain ⟨text, rfl, htext⟩ := h
  exact ⟨text, rfl, htext⟩

theorem sendNames_some {P : Byte → Prop} (hcomma : ∀ ch ∈ cstr ", ", P ch)
    {names : List (Option Text)} (hnames : ∀ name ∈ names, SomeText P name) (counter : ℕ)
    (os : State) :
    ∃ n out, sendNames counter names os = some (n, os.stringPrint out) ∧ ∀ ch ∈ out, P ch := by
  induction names generalizing counter os with
  | nil =>
      refine ⟨counter, [], ?_, List.forall_mem_nil _⟩
      rw [sendNames, State.stringPrint, List.append_nil]
  | cons name names ih =>
      obtain ⟨text, rfl, htext⟩ := hnames _ List.mem_cons_self
      have hrest := fun name hname ↦ hnames name (List.mem_cons_of_mem _ hname)
      by_cases hfirst : counter = 0
      · obtain ⟨n, out, hsend, hout⟩ := ih hrest (counter + 1) (os.stringPrint text)
        refine ⟨n, text ++ out, ?_, List.forall_mem_append.mpr ⟨htext, hout⟩⟩
        rw [sendNames, if_neg (not_not.mpr hfirst)]
        refine hsend.trans ?_
        rw [State.stringPrint, State.stringPrint, State.stringPrint, List.append_assoc]
      · obtain ⟨n, out, hsend, hout⟩ := ih hrest (counter + 1)
          ((os.uartSendCstr ", ").stringPrint text)
        refine ⟨n, cstr ", " ++ (text ++ out), ?_,
          List.forall_mem_append.mpr ⟨hcomma, List.forall_mem_append.mpr ⟨htext, hout⟩⟩⟩
        rw [sendNames, if_pos hfirst]
        refine hsend.trans ?_
        simp only [State.uartSendCstr, State.stringPrint, List.append_assoc]

/-! ## Sums over an array -/

/-- One element of an array is replaced. -/
theorem sum_update_add {M : Type*} [AddCommMonoid M] {n i : ℕ} (hi : i < n) (f : ℕ → M) (v : M) :
    ∑ k ∈ range n, Function.update f i v k + f i = ∑ k ∈ range n, f k + v := by
  have hmem : i ∈ range n := Finset.mem_range.mpr hi
  rw [Finset.sum_update_of_mem hmem, ← Finset.sum_sdiff (Finset.singleton_subset_iff.mpr hmem),
    Finset.sum_singleton]
  abel

/-! ## Lists -/

namespace BoundedList

variable {α : Type*} {size : ℕ} {l : BoundedList α size} {elem : α}

theorem coe_add (h : (l.add elem).1 = true) :
    ((l.add elem).2.toList : Multiset α) = l.toList + {elem} := by
  rw [toList_add h, ← Multiset.coe_add]
  rfl

theorem coe_removeAt [Inhabited α] {pos : ℕ} (h : pos < l.len) :
    ((l.removeAt pos).2.toList : Multiset α) + {l.at' pos} = l.toList := by
  have hremove : (l.removeAt pos).2.toList = l.toList.eraseIdx pos := by
    rw [removeAt, if_neg (Nat.not_le.mpr h)]
    exact toList_removeFrom h
  obtain ⟨hlt, hget⟩ := List.getElem?_eq_some_iff.mp (at'_eq h)
  rw [hremove, ← hget, ← Multiset.coe_singleton, Multiset.coe_add, Multiset.coe_eq_coe]
  exact (List.perm_append_comm.trans (List.getElem_cons_eraseIdx_perm hlt))

/-- A sum that counts a list once grows by what is added to the list. -/
theorem sum_add {s t : Multiset α}
    (h : s + (l.toList : Multiset α) = t + ((l.add elem).2.toList : Multiset α)) :
    s = if (l.add elem).1 then t + {elem} else t := by
  cases hok : (l.add elem).1 with
  | false =>
      rw [add_eq_self hok] at h
      exact add_right_cancel h
  | true =>
      rw [coe_add hok, ← add_assoc, add_right_comm] at h
      exact add_right_cancel h

/-- It shrinks by what is removed from the list. -/
theorem sum_removeAt [Inhabited α] {s t : Multiset α} {pos : ℕ} (hpos : pos < l.len)
    (h : s + (l.toList : Multiset α) = t + ((l.removeAt pos).2.toList : Multiset α)) :
    s + {l.at' pos} = t := by
  rw [← coe_removeAt hpos, ← add_assoc, add_right_comm] at h
  exact add_right_cancel h

/-- What was added to a list. -/
theorem mem_add {x : α} (h : x ∈ (l.add elem).2.toList) : x ∈ l.toList ∨ x = elem := by
  cases hok : (l.add elem).1 with
  | false =>
      rw [add_eq_self hok] at h
      exact .inl h
  | true =>
      rw [toList_add hok] at h
      exact (List.mem_append.mp h).imp_right List.mem_singleton.mp

theorem mem_removeAt {pos : ℕ} {x : α} (h : x ∈ (l.removeAt pos).2.toList) : x ∈ l.toList := by
  unfold removeAt at h
  split at h
  · exact h
  · next hlt =>
      rw [toList_removeFrom (Nat.not_le.mp hlt)] at h
      exact List.mem_of_mem_eraseIdx h

theorem len_removeAt_lt {pos : ℕ} (h : l.len < size) : (l.removeAt pos).2.len < size := by
  unfold removeAt
  split
  · exact h
  · exact (Nat.sub_le l.len 1).trans_lt h

theorem len_remove_lt [DecidableEq α] (h : l.len < size) : (l.remove elem).2.len < size := by
  unfold remove
  dsimp only
  split
  · exact (Nat.sub_le l.len 1).trans_lt h
  · exact h

theorem at'_mem [Inhabited α] {pos : ℕ} (h : pos < l.len) : l.at' pos ∈ l.toList :=
  List.mem_of_getElem? (at'_eq h)

/-- Where a search has not come to the end it has found an element. -/
theorem lt_of_not_isAtEnd {f : α → Bool} (h : ¬ l.isAtEnd (l.forEachUntilFalse f) = true) :
    l.forEachUntilFalse f < l.len := by
  have hle : l.forEachUntilFalse f ≤ l.len := by
    rw [forEachUntilFalse_eq, ← length_toList]
    exact List.findIdx_le_length
  have hne : l.forEachUntilFalse f ≠ l.len := fun heq ↦ h (beq_iff_eq.mpr heq)
  omega

end BoundedList

/-! ## Well-formed worlds -/

structure EntityFits (named : Id → Prop) (e : Entity) : Prop where
  named : ∀ id ∈ e.objects.toList, named id
  size : e.objects.len < entityMaxObjects

structure LocationFits (named : Id → Prop) (locationCount : ℕ) (l : Location) : Prop where
  named : ∀ id ∈ l.objects.toList, named id
  links : ∀ lnk ∈ l.links.toList, lnk.location.toNat < locationCount
  linksSize : l.links.len < locationMaxLinks
  objectsSize : l.objects.len < locationMaxObjects
  entitiesSize : l.entities.len < locationMaxEntities

theorem LocationFits.add {named : Id → Prop} {count : ℕ} {l : Location}
    (h : LocationFits named count l) (id : Id) :
    LocationFits named count { l with entities := (l.entities.add id).2 } :=
  ⟨h.named, h.links, h.linksSize, h.objectsSize, BoundedList.len_add_lt id h.entitiesSize⟩

theorem LocationFits.remove {named : Id → Prop} {count : ℕ} {l : Location}
    (h : LocationFits named count l) (id : Id) :
    LocationFits named count { l with entities := (l.entities.remove id).2 } :=
  ⟨h.named, h.links, h.linksSize, h.objectsSize, BoundedList.len_remove_lt h.entitiesSize⟩

namespace World

/-- An existing object with a name. -/
def Named (w : World) (id : Id) : Prop :=
  id.toNat < w.objectCount ∧ (w.objects id.toNat).name.isSome

/-- An existing entity other than the placeholder. -/
def IsEntity (w : World) (id : Id) : Prop := 0 < id.toNat ∧ id.toNat < w.entityCount

instance (w : World) (id : Id) : Decidable (w.Named id) := inferInstanceAs (Decidable (_ ∧ _))

instance (w : World) (id : Id) : Decidable (w.IsEntity id) := inferInstanceAs (Decidable (_ ∧ _))

structure WellFormed (w : World) : Prop where
  entities : ∀ i < w.entityCount, EntityFits w.Named (w.entities i)
  locations : ∀ i < w.locationCount, LocationFits w.Named w.locationCount (w.locations i)
  place : ∀ i < w.locationCount, ∀ id ∈ (w.locations i).entities.toList,
    w.IsEntity id ∧ (w.entities id.toNat).location.toNat = i
  once : ∀ id, w.IsEntity id →
    ∑ i ∈ range w.locationCount, (w.locations i).entities.toList.count id = 1

/-- The objects in all lists. -/
def objectIds (w : World) : Multiset Id :=
  ∑ i ∈ range w.locationCount, ((w.locations i).objects.toList : Multiset Id) +
    ∑ i ∈ range w.entityCount, ((w.entities i).objects.toList : Multiset Id)

/-- A step after which nothing is lost. -/
structure Conserves (w w' : World) : Prop where
  wellFormed : w'.WellFormed
  objectIds : w'.objectIds = w.objectIds
  isEntity : ∀ id, w.IsEntity id → w'.IsEntity id

section Updates

variable {w : World} {id : Id}

theorem index_eq {count : ℕ} (h : id.toNat < count) : index count id = id.toNat :=
  if_neg (Nat.not_le.mpr h)

theorem mapEntity_apply (hid : id.toNat < w.entityCount) (f : Entity → Entity) (i : ℕ) :
    (w.mapEntity id f).entities i = if i = id.toNat then f (w.entities i) else w.entities i := by
  rw [World.mapEntity, index_eq hid]
  dsimp only
  split
  · next heq => rw [heq, Function.update_self]
  · next hne => rw [Function.update_of_ne hne]

theorem mapLocation_apply (hid : id.toNat < w.locationCount) (f : Location → Location) (i : ℕ) :
    (w.mapLocation id f).locations i =
    if i = id.toNat then f (w.locations i) else w.locations i := by
  rw [World.mapLocation, index_eq hid]
  dsimp only
  split
  · next heq => rw [heq, Function.update_self]
  · next hne => rw [Function.update_of_ne hne]

/-- What an entity has changes. -/
theorem WellFormed.mapEntity (h : w.WellFormed) (hid : id.toNat < w.entityCount)
    {f : Entity → Entity} (hfits : EntityFits w.Named (f (w.entities id.toNat)))
    (hlocation : ∀ e, (f e).location = e.location) : (w.mapEntity id f).WellFormed := by
  refine ⟨?_, h.locations, ?_, h.once⟩
  · intro i hi
    rw [mapEntity_apply hid]
    split
    · next heq => rw [heq]; exact hfits
    · exact h.entities i hi
  · intro i hi id' hid'
    have hplace := h.place i hi id' hid'
    rw [mapEntity_apply hid]
    split
    · rw [hlocation]
      exact hplace
    · exact hplace

/-- What is at a location changes, but not who. -/
theorem WellFormed.mapLocation (h : w.WellFormed) (hid : id.toNat < w.locationCount)
    {f : Location → Location}
    (hfits : LocationFits w.Named w.locationCount (f (w.locations id.toNat)))
    (hentities : ∀ l, (f l).entities = l.entities) : (w.mapLocation id f).WellFormed := by
  have hsame (i : ℕ) : ((w.mapLocation id f).locations i).entities = (w.locations i).entities := by
    rw [mapLocation_apply hid]
    split
    · exact hentities _
    · rfl
  refine ⟨h.entities, ?_, ?_, ?_⟩
  · intro i hi
    rw [mapLocation_apply hid]
    split
    · next heq => rw [heq]; exact hfits
    · exact h.locations i hi
  · intro i hi id' hid'
    rw [hsame] at hid'
    exact h.place i hi id' hid'
  · intro id' hid'
    simp only [hsame]
    exact h.once id' hid'

theorem objectIds_mapEntity (hid : id.toNat < w.entityCount) (f : Entity → Entity) :
    (w.mapEntity id f).objectIds + ((w.entities id.toNat).objects.toList : Multiset Id) =
      w.objectIds + ((f (w.entities id.toNat)).objects.toList : Multiset Id) := by
  have hsum := sum_update_add hid (fun i ↦ ((w.entities i).objects.toList : Multiset Id))
    ((f (w.entities id.toNat)).objects.toList : Multiset Id)
  have hupdate : (fun i ↦ (((w.mapEntity id f).entities i).objects.toList : Multiset Id)) =
      Function.update (fun i ↦ ((w.entities i).objects.toList : Multiset Id)) id.toNat
        ((f (w.entities id.toNat)).objects.toList : Multiset Id) := by
    rw [World.mapEntity, index_eq hid]
    exact Function.comp_update (fun e : Entity ↦ (e.objects.toList : Multiset Id)) _ _ _
  rw [← hupdate] at hsum
  rw [objectIds, objectIds, add_assoc, add_assoc]
  exact congrArg _ hsum

theorem objectIds_mapLocation (hid : id.toNat < w.locationCount) (f : Location → Location) :
    (w.mapLocation id f).objectIds + ((w.locations id.toNat).objects.toList : Multiset Id) =
      w.objectIds + ((f (w.locations id.toNat)).objects.toList : Multiset Id) := by
  have hsum := sum_update_add hid (fun i ↦ ((w.locations i).objects.toList : Multiset Id))
    ((f (w.locations id.toNat)).objects.toList : Multiset Id)
  have hupdate : (fun i ↦ (((w.mapLocation id f).locations i).objects.toList : Multiset Id)) =
      Function.update (fun i ↦ ((w.locations i).objects.toList : Multiset Id)) id.toNat
        ((f (w.locations id.toNat)).objects.toList : Multiset Id) := by
    rw [World.mapLocation, index_eq hid]
    exact Function.comp_update (fun l : Location ↦ (l.objects.toList : Multiset Id)) _ _ _
  rw [← hupdate] at hsum
  rw [objectIds, objectIds, add_right_comm, add_right_comm _ _ (Multiset.ofList _)]
  exact congrArg (· + _) hsum

end Updates

/-! ## Objects -/

section Objects

variable {w : World} {eid : Id} {pos : ℕ}

/-- Every entity stands in the list of the location it names. -/
theorem WellFormed.located (h : w.WellFormed) (heid : w.IsEntity eid) :
    (w.entities eid.toNat).location.toNat < w.locationCount ∧
      eid ∈ (w.locations (w.entities eid.toNat).location.toNat).entities.toList := by
  have hone := h.once eid heid
  obtain ⟨i, hi, hne⟩ := Finset.exists_ne_zero_of_sum_ne_zero (hone.trans_ne one_ne_zero)
  have hmem := List.count_pos_iff.mp (Nat.pos_of_ne_zero hne)
  have hlt := Finset.mem_range.mp hi
  have hplace := (h.place i hlt eid hmem).2
  rw [hplace]
  exact ⟨hlt, hmem⟩

theorem Conserves.refl (h : w.WellFormed) : Conserves w w := ⟨h, rfl, fun _ ↦ id⟩

theorem entityById_eq (h : eid.toNat < w.entityCount) : w.entityById eid = w.entities eid.toNat :=
  congrArg w.entities (index_eq h)

theorem locationById_eq (h : eid.toNat < w.locationCount) :
    w.locationById eid = w.locations eid.toNat := congrArg w.locations (index_eq h)

/-- An object is added to what an entity has. -/
theorem WellFormed.addToEntity (h : w.WellFormed) (heid : eid.toNat < w.entityCount) {id : Id}
    (hnamed : w.Named id) :
    (w.mapEntity eid fun ent ↦ { ent with objects := (ent.objects.add id).2 }).WellFormed := by
  have hfits := h.entities _ heid
  refine h.mapEntity heid ⟨?_, BoundedList.len_add_lt id hfits.size⟩ fun _ ↦ rfl
  intro x hx
  rcases BoundedList.mem_add hx with hold | rfl
  · exact hfits.named x hold
  · exact hnamed

theorem WellFormed.removeFromEntity (h : w.WellFormed) (heid : eid.toNat < w.entityCount)
    (pos : ℕ) :
    (w.mapEntity eid fun ent ↦
      { ent with objects := (ent.objects.removeAt pos).2 }).WellFormed := by
  have hfits := h.entities _ heid
  exact h.mapEntity heid ⟨fun x hx ↦ hfits.named x (BoundedList.mem_removeAt hx),
    BoundedList.len_removeAt_lt hfits.size⟩ fun _ ↦ rfl

theorem WellFormed.addToLocation (h : w.WellFormed) (hlid : eid.toNat < w.locationCount) {id : Id}
    (hnamed : w.Named id) :
    (w.mapLocation eid fun loc ↦ { loc with objects := (loc.objects.add id).2 }).WellFormed := by
  have hfits := h.locations _ hlid
  refine h.mapLocation hlid ⟨?_, hfits.links, hfits.linksSize,
    BoundedList.len_add_lt id hfits.objectsSize, hfits.entitiesSize⟩ fun _ ↦ rfl
  intro x hx
  rcases BoundedList.mem_add hx with hold | rfl
  · exact hfits.named x hold
  · exact hnamed

theorem WellFormed.removeFromLocation (h : w.WellFormed) (hlid : eid.toNat < w.locationCount)
    (pos : ℕ) :
    (w.mapLocation eid fun loc ↦
      { loc with objects := (loc.objects.removeAt pos).2 }).WellFormed := by
  have hfits := h.locations _ hlid
  exact h.mapLocation hlid ⟨fun x hx ↦ hfits.named x (BoundedList.mem_removeAt hx), hfits.links,
    hfits.linksSize, BoundedList.len_removeAt_lt hfits.objectsSize, hfits.entitiesSize⟩ fun _ ↦ rfl

theorem objectIds_addToEntity (heid : eid.toNat < w.entityCount) (id : Id) :
    (w.mapEntity eid fun ent ↦ { ent with objects := (ent.objects.add id).2 }).objectIds =
      if ((w.entities eid.toNat).objects.add id).1 then w.objectIds + {id} else w.objectIds := by
  have hids := objectIds_mapEntity heid fun ent ↦ { ent with objects := (ent.objects.add id).2 }
  exact BoundedList.sum_add hids

theorem objectIds_addToLocation (hlid : eid.toNat < w.locationCount) (id : Id) :
    (w.mapLocation eid fun loc ↦ { loc with objects := (loc.objects.add id).2 }).objectIds =
      if ((w.locations eid.toNat).objects.add id).1 then w.objectIds + {id} else w.objectIds := by
  have hids := objectIds_mapLocation hlid fun loc ↦ { loc with objects := (loc.objects.add id).2 }
  exact BoundedList.sum_add hids

theorem objectIds_removeFromEntity (heid : eid.toNat < w.entityCount)
    (hpos : pos < (w.entities eid.toNat).objects.len) :
    (w.mapEntity eid fun ent ↦ { ent with objects := (ent.objects.removeAt pos).2 }).objectIds +
      {(w.entities eid.toNat).objects.at' pos} = w.objectIds := by
  have hids := objectIds_mapEntity heid fun ent ↦
    { ent with objects := (ent.objects.removeAt pos).2 }
  exact BoundedList.sum_removeAt hpos hids

theorem objectIds_removeFromLocation (hlid : eid.toNat < w.locationCount)
    (hpos : pos < (w.locations eid.toNat).objects.len) :
    (w.mapLocation eid fun loc ↦ { loc with objects := (loc.objects.removeAt pos).2 }).objectIds +
      {(w.locations eid.toNat).objects.at' pos} = w.objectIds := by
  have hids := objectIds_mapLocation hlid fun loc ↦
    { loc with objects := (loc.objects.removeAt pos).2 }
  exact BoundedList.sum_removeAt hpos hids

end Objects

/-! ## Entities -/

section Moves

variable {w : World} {eid dest : Id}

/-- The world after an entity has been added to a location. -/
def arrive (eid dest : Id) (w : World) : World :=
  w.mapLocation dest fun loc ↦ { loc with entities := (loc.entities.add eid).2 }

/-- The world after it has left the one it was at. -/
def leave (eid origin dest : Id) (w : World) : World :=
  (w.mapLocation origin fun loc ↦
      { loc with entities := (loc.entities.remove eid).2 }).mapEntity eid
    fun ent ↦ { ent with location := dest }

theorem objectIds_arrive (hdest : dest.toNat < w.locationCount) (eid : Id) :
    (arrive eid dest w).objectIds = w.objectIds := by
  have hids := objectIds_mapLocation hdest fun loc ↦
    { loc with entities := (loc.entities.add eid).2 }
  exact add_right_cancel hids

theorem objectIds_leave {origin : Id} (horigin : origin.toNat < w.locationCount)
    (heid : eid.toNat < w.entityCount) (dest : Id) :
    (leave eid origin dest w).objectIds = w.objectIds := by
  have hlocation := objectIds_mapLocation horigin fun loc ↦
    { loc with entities := (loc.entities.remove eid).2 }
  have hentity := objectIds_mapEntity (w := w.mapLocation origin fun loc ↦
    { loc with entities := (loc.entities.remove eid).2 }) heid fun ent ↦
      { ent with location := dest }
  exact (add_right_cancel hentity).trans (add_right_cancel hlocation)

/-- An entity occurs once in the list of its location and in no other. -/
theorem WellFormed.count_eq (h : w.WellFormed) (heid : w.IsEntity eid) {i : ℕ}
    (hi : i < w.locationCount) :
    (w.locations i).entities.toList.count eid =
      if i = (w.entities eid.toNat).location.toNat then 1 else 0 := by
  have hzero : ∀ k ∈ range w.locationCount, k ≠ (w.entities eid.toNat).location.toNat →
      (w.locations k).entities.toList.count eid = 0 := by
    intro k hk hne
    rw [List.count_eq_zero]
    intro hmem
    exact hne (h.place k (Finset.mem_range.mp hk) eid hmem).2.symm
  split
  · next heq =>
      rw [heq, ← h.once eid heid]
      exact (Finset.sum_eq_single _ hzero fun hout ↦
        absurd (Finset.mem_range.mpr (heq ▸ hi)) hout).symm
  · next hne => exact hzero i (Finset.mem_range.mpr hi) hne

/-- The lists of entities after an entity has moved. -/
theorem entities_moved {origin : Id} (horigin : origin.toNat < w.locationCount)
    (hdest : dest.toNat < w.locationCount)
    (hok : ((w.locations dest.toNat).entities.add eid).1 = true) (i : ℕ) :
    ((leave eid origin dest (arrive eid dest w)).locations i).entities.toList =
      if i = origin.toNat then
        (if i = dest.toNat then (w.locations i).entities.toList ++ [eid]
          else (w.locations i).entities.toList).erase eid
      else if i = dest.toNat then (w.locations i).entities.toList ++ [eid]
      else (w.locations i).entities.toList := by
  have harrive : ((arrive eid dest w).locations i).entities.toList =
      if i = dest.toNat then (w.locations i).entities.toList ++ [eid]
      else (w.locations i).entities.toList := by
    rw [arrive, mapLocation_apply hdest]
    split
    · next heq =>
        rw [heq]
        exact BoundedList.toList_add hok
    · rfl
  have hleave := mapLocation_apply (w := arrive eid dest w) horigin
    (fun loc ↦ { loc with entities := (loc.entities.remove eid).2 }) i
  rw [← harrive]
  refine (congrArg (fun l : Location ↦ l.entities.toList) hleave).trans ?_
  split
  · exact BoundedList.toList_remove _ _
  · rfl

/-- An entity that has moved occurs once, where it went. -/
theorem WellFormed.count_moved_self (h : w.WellFormed) (heid : w.IsEntity eid)
    (hdest : dest.toNat < w.locationCount)
    (hok : ((w.locations dest.toNat).entities.add eid).1 = true) {i : ℕ}
    (hi : i < w.locationCount) :
    ((leave eid (w.entities eid.toNat).location dest (World.arrive eid dest w)).locations
      i).entities.toList.count eid = if i = dest.toNat then 1 else 0 := by
  have hcount := h.count_eq heid hi
  rw [entities_moved (h.located heid).1 hdest hok]
  split_ifs at hcount ⊢
  · rw [List.count_erase_self, List.count_append, hcount, List.count_singleton_self]
  · rw [List.count_erase_self, hcount]
  · rw [List.count_append, hcount, List.count_singleton_self]
  · exact hcount

/-- The others stay where they are. -/
theorem count_moved_of_ne {origin id : Id} (horigin : origin.toNat < w.locationCount)
    (hdest : dest.toNat < w.locationCount)
    (hok : ((w.locations dest.toNat).entities.add eid).1 = true) (hne : id ≠ eid) (i : ℕ) :
    ((leave eid origin dest (arrive eid dest w)).locations i).entities.toList.count id =
      (w.locations i).entities.toList.count id := by
  have hsingle : [eid].count id = 0 := List.count_eq_zero.mpr fun hmem ↦
    hne (List.mem_singleton.mp hmem)
  rw [entities_moved horigin hdest hok]
  split_ifs
  · rw [List.count_erase_of_ne hne, List.count_append, hsingle, Nat.add_zero]
  · rw [List.count_erase_of_ne hne]
  · rw [List.count_append, hsingle, Nat.add_zero]
  · rfl

theorem WellFormed.fits_arrive (h : w.WellFormed) (hdest : dest.toNat < w.locationCount) (eid : Id)
    {i : ℕ} (hi : i < w.locationCount) :
    LocationFits w.Named w.locationCount ((World.arrive eid dest w).locations i) := by
  rw [World.arrive, mapLocation_apply hdest]
  split
  · exact (h.locations i hi).add eid
  · exact h.locations i hi

/-- A location that is full stays as it is. -/
theorem WellFormed.arrive (h : w.WellFormed) (hdest : dest.toNat < w.locationCount)
    (hok : ¬ ((w.locations dest.toNat).entities.add eid).1 = true) :
    (World.arrive eid dest w).WellFormed := by
  have hsame (i : ℕ) : ((World.arrive eid dest w).locations i).entities =
      (w.locations i).entities := by
    rw [World.arrive, mapLocation_apply hdest]
    split
    · next heq =>
        rw [heq]
        exact BoundedList.add_eq_self (Bool.eq_false_iff.mpr hok)
    · rfl
  refine ⟨h.entities, fun i hi ↦ h.fits_arrive hdest eid hi, ?_, ?_⟩
  · intro i hi id hid
    rw [hsame] at hid
    exact h.place i hi id hid
  · intro id hid
    simp only [hsame]
    exact h.once id hid

theorem WellFormed.fits_leave {origin : Id} (h : w.WellFormed)
    (horigin : origin.toNat < w.locationCount) (hdest : dest.toNat < w.locationCount) (eid : Id)
    {i : ℕ} (hi : i < w.locationCount) :
    LocationFits w.Named w.locationCount
      ((leave eid origin dest (World.arrive eid dest w)).locations i) := by
  have harrive := h.fits_arrive hdest eid hi
  have hleave := mapLocation_apply (w := World.arrive eid dest w) horigin
    (fun loc ↦ { loc with entities := (loc.entities.remove eid).2 }) i
  refine Eq.mpr (congrArg _ hleave) ?_
  split
  · exact harrive.remove eid
  · exact harrive

theorem WellFormed.move (h : w.WellFormed) (heid : w.IsEntity eid)
    (hdest : dest.toNat < w.locationCount)
    (hok : ((w.locations dest.toNat).entities.add eid).1 = true) :
    (leave eid (w.entities eid.toNat).location dest (World.arrive eid dest w)).WellFormed := by
  obtain ⟨horigin, -⟩ := h.located heid
  have hself (i : ℕ) (hi : i < w.locationCount) := h.count_moved_self heid hdest hok hi
  have hother (id : Id) (hne : id ≠ eid) (i : ℕ) := count_moved_of_ne horigin hdest hok hne i
  have hfits (i : ℕ) (hi : i < w.locationCount) := h.fits_leave horigin hdest eid hi
  have hentity (i : ℕ) := mapEntity_apply
    (w := (World.arrive eid dest w).mapLocation (w.entities eid.toNat).location
      fun loc ↦ { loc with entities := (loc.entities.remove eid).2 })
    heid.2 (fun ent ↦ { ent with location := dest }) i
  refine ⟨?_, fun i hi ↦ hfits i hi, ?_, ?_⟩
  · intro i hi
    have hold := h.entities i hi
    refine Eq.mpr (congrArg _ (hentity i)) ?_
    split
    · exact ⟨hold.named, hold.size⟩
    · exact hold
  · intro i hi id hid
    have hpos := List.count_pos_iff.mpr hid
    by_cases hsame : id = eid
    · subst hsame
      rw [hself i hi] at hpos
      have hplace : i = dest.toNat := by
        by_contra hne
        rw [if_neg hne] at hpos
        exact lt_irrefl 0 hpos
      refine ⟨heid, ?_⟩
      rw [hplace]
      exact congrArg (fun ent : Entity ↦ ent.location.toNat) ((hentity _).trans (if_pos rfl))
    · rw [hother id hsame] at hpos
      have hne : id.toNat ≠ eid.toNat := fun heq ↦ hsame (BitVec.eq_of_toNat_eq heq)
      obtain ⟨hid', hplace⟩ := h.place i hi id (List.count_pos_iff.mp hpos)
      exact ⟨hid', (congrArg (fun ent : Entity ↦ ent.location.toNat)
        ((hentity _).trans (if_neg hne))).trans hplace⟩
  · intro id hid
    by_cases hsame : id = eid
    · subst hsame
      refine (Finset.sum_congr rfl fun i hi ↦ hself i (Finset.mem_range.mp hi)).trans ?_
      rw [Finset.sum_ite_eq']
      exact if_pos (Finset.mem_range.mpr hdest)
    · refine (Finset.sum_congr rfl fun i _ ↦ hother id hsame i).trans ?_
      exact h.once id hid

end Moves

end World

/-! ## Actions -/

section Actions

open World

variable {os : State} {eid : Id}

theorem conserves_take (h : os.world.WellFormed) (heid : os.world.IsEntity eid) (args : Text) :
    os.world.Conserves (actionTake eid args os).world := by
  obtain ⟨hlid, -⟩ := h.located heid
  unfold actionTake
  split
  · exact .refl h
  dsimp only
  rw [entityById_eq heid.2, locationById_eq hlid]
  split
  · exact .refl h
  next hend =>
  have hpos := BoundedList.lt_of_not_isAtEnd hend
  generalize BoundedList.forEachUntilFalse _ _ = pos at hpos
  have hnamed := (h.locations _ hlid).named _ (BoundedList.at'_mem hpos)
  have hwell := h.addToEntity heid.2 hnamed
  have hadd := objectIds_addToEntity heid.2
    ((os.world.locations (os.world.entities eid.toNat).location.toNat).objects.at' pos)
  split
  · next hok =>
      rw [if_pos hok] at hadd
      refine ⟨hwell.removeFromLocation hlid pos, ?_, fun _ ↦ id⟩
      refine add_right_cancel (Eq.trans ?_ hadd)
      exact objectIds_removeFromLocation hlid hpos
  · next hok =>
      rw [if_neg hok] at hadd
      exact ⟨hwell, hadd, fun _ ↦ id⟩

theorem conserves_drop (h : os.world.WellFormed) (heid : os.world.IsEntity eid) (args : Text) :
    os.world.Conserves (actionDrop eid args os).world := by
  obtain ⟨hlid, -⟩ := h.located heid
  unfold actionDrop
  split
  · exact .refl h
  dsimp only
  rw [entityById_eq heid.2, locationById_eq hlid]
  split
  · exact .refl h
  next hend =>
  have hpos := BoundedList.lt_of_not_isAtEnd hend
  generalize BoundedList.forEachUntilFalse _ _ = pos at hpos
  have hnamed := (h.entities _ heid.2).named _ (BoundedList.at'_mem hpos)
  have hwell := h.addToLocation hlid hnamed
  have hadd := objectIds_addToLocation hlid ((os.world.entities eid.toNat).objects.at' pos)
  split
  · next hok =>
      rw [if_pos hok] at hadd
      refine ⟨hwell.removeFromEntity heid.2 pos, ?_, fun _ ↦ id⟩
      refine add_right_cancel (Eq.trans ?_ hadd)
      exact objectIds_removeFromEntity heid.2 hpos
  · next hok =>
      rw [if_neg hok] at hadd
      exact ⟨hwell, hadd, fun _ ↦ id⟩

/-- What an entity has keeps its place when something is added, to itself or to
another entity. -/
theorem at'_addToEntity {w : World} {pos : ℕ} (dest id : Id)
    (hpos : pos < (w.entities eid.toNat).objects.len) :
    let w' := w.mapEntity dest fun ent ↦ { ent with objects := (ent.objects.add id).2 }
    pos < (w'.entities eid.toNat).objects.len ∧
      (w'.entities eid.toNat).objects.at' pos = (w.entities eid.toNat).objects.at' pos := by
  dsimp only [mapEntity]
  by_cases hsame : eid.toNat = index w.entityCount dest
  · rw [← hsame, Function.update_self]
    dsimp only
    unfold BoundedList.add
    split
    · exact ⟨hpos, rfl⟩
    · refine ⟨Nat.lt_succ_of_lt hpos, ?_⟩
      rw [BoundedList.at', BoundedList.at', if_neg (Nat.not_le.mpr hpos),
        if_neg (Nat.not_le.mpr (Nat.lt_succ_of_lt hpos))]
      exact Function.update_of_ne hpos.ne ..
  · rw [Function.update_of_ne hsame]
    exact ⟨hpos, rfl⟩

theorem conserves_give (h : os.world.WellFormed) (heid : os.world.IsEntity eid) (args : Text) :
    os.world.Conserves (actionGive eid args os).world := by
  obtain ⟨hlid, -⟩ := h.located heid
  unfold actionGive
  dsimp only
  split
  · exact .refl h
  split
  · exact .refl h
  rw [entityById_eq heid.2, locationById_eq hlid]
  split
  · exact .refl h
  next htoEnd =>
  have htoPos := BoundedList.lt_of_not_isAtEnd htoEnd
  generalize BoundedList.forEachUntilFalse _ _ = toPos at htoPos
  have hto := (h.place _ hlid _ (BoundedList.at'_mem htoPos)).1
  generalize (os.world.locations (os.world.entities eid.toNat).location.toNat).entities.at' toPos =
    dest at hto
  rw [entityById_eq hto.2]
  split
  · exact .refl h
  next hend =>
  have hpos := BoundedList.lt_of_not_isAtEnd hend
  generalize BoundedList.forEachUntilFalse _ _ = pos at hpos
  have hnamed := (h.entities _ heid.2).named _ (BoundedList.at'_mem hpos)
  have hwell := h.addToEntity hto.2 hnamed
  have hadd := objectIds_addToEntity hto.2 ((os.world.entities eid.toNat).objects.at' pos)
  split
  · next hok =>
      rw [if_pos hok] at hadd
      obtain ⟨hpos', hat⟩ :=
        at'_addToEntity dest ((os.world.entities eid.toNat).objects.at' pos) hpos
      have hremove := objectIds_removeFromEntity (w := os.world.mapEntity dest fun ent ↦
        { ent with
          objects := (ent.objects.add ((os.world.entities eid.toNat).objects.at' pos)).2 })
        heid.2 hpos'
      rw [hat] at hremove
      exact ⟨hwell.removeFromEntity heid.2 pos, add_right_cancel (hremove.trans hadd), fun _ ↦ id⟩
  · next hok =>
      rw [if_neg hok] at hadd
      exact ⟨hwell, hadd, fun _ ↦ id⟩

/-- An entity is taken out of the list of one location after it has been added
to that of another one, which may be the same. -/
theorem conserves_go (h : os.world.WellFormed) (heid : os.world.IsEntity eid) (linkId : Id) :
    os.world.Conserves (actionGo eid linkId os).world := by
  obtain ⟨hlid, hmem⟩ := h.located heid
  unfold actionGo
  dsimp only
  rw [entityById_eq heid.2, locationById_eq hlid]
  split
  · exact .refl h
  next hend =>
  have hpos := BoundedList.lt_of_not_isAtEnd hend
  generalize BoundedList.forEachUntilFalse _ _ = pos at hpos
  have hdest := (h.locations _ hlid).links _ (BoundedList.at'_mem hpos)
  generalize ((os.world.locations (os.world.entities eid.toNat).location.toNat).links.at'
    pos).location = dest at hdest
  rw [locationById_eq hdest]
  split
  · next hok =>
      have hleave := objectIds_leave (w := arrive eid dest os.world) hlid heid.2 dest
      exact ⟨h.move heid hdest hok, hleave.trans (objectIds_arrive hdest eid), fun _ ↦ id⟩
  · next hok => exact ⟨h.arrive hdest hok, objectIds_arrive hdest eid, fun _ ↦ id⟩

theorem actionInventory_world (h : os.world.WellFormed) (heid : os.world.IsEntity eid) :
    Yields (fun os' ↦ os'.world = os.world) (actionInventory eid os) := by
  have hnames : ∀ name ∈ (os.world.entityById eid).objects.toList.map
      fun id ↦ (os.world.objectById id).name, SomeText (fun _ ↦ True) name := by
    intro name hmem
    obtain ⟨id, hid, rfl⟩ := List.mem_map.mp hmem
    rw [entityById_eq heid.2] at hid
    obtain ⟨hlt, hsome⟩ := (h.entities _ heid.2).named id hid
    rw [objectById, index_eq hlt]
    obtain ⟨text, htext⟩ := Option.isSome_iff_exists.mp hsome
    exact ⟨text, htext, fun _ _ ↦ trivial⟩
  obtain ⟨n, out, hsend, -⟩ := sendNames_some (fun _ _ ↦ trivial) hnames 0
    (os.uartSendCstr "u have: ")
  refine ⟨(if n = 0 then ((os.uartSendCstr "u have: ").stringPrint out).uartSendCstr "nothing"
    else (os.uartSendCstr "u have: ").stringPrint out).uartSendCstr "\r\n", ?_, ?_⟩
  · rw [actionInventory, hsend]
    rfl
  · split <;> rfl

theorem actionSdcardRead_world (args : Text) (os : State) :
    (actionSdcardRead args os).world = os.world := by
  unfold actionSdcardRead
  generalize stringNextWord args = w1
  cases h : w1.word.isEmpty <;> simp only [h] <;> rfl

theorem actionSdcardWrite_world (args : Text) (os : State) :
    (actionSdcardWrite args os).world = os.world := by
  unfold actionSdcardWrite
  generalize stringNextWord args = w1
  cases h : w1.word.isEmpty with
  | true => simp only [h]; rfl
  | false =>
      by_cases hlen : w1.rem.length > sectorSize
      · simp only [h, if_pos hlen]; rfl
      · simp only [h, if_neg hlen]; rfl

theorem World.Conserves.of_eq {w w' : World} (h : w.WellFormed) (heq : w' = w) : w.Conserves w' :=
  heq.symm ▸ .refl h

theorem conserves_handleInput (p : Platform) (h : os.world.WellFormed)
    (heid : os.world.IsEntity eid) (line : Text) :
    Yields (fun os' ↦ os.world.Conserves os'.world) (handleInput p eid line os) := by
  have hsame {os' : State} (hworld : os'.world = os.world) :
      Yields (fun os' ↦ os.world.Conserves os'.world) (some os') := .some (.of_eq h hworld)
  have hinventory : Yields (fun os' ↦ os.world.Conserves os'.world)
      ((actionInventory eid os).map fun os ↦ os.uartSendCstr "\r\n") :=
    (actionInventory_world h heid).map fun _ hworld ↦ .of_eq h hworld
  have hgo (linkId : Id) :
      Yields (fun os' ↦ os.world.Conserves os'.world) (some (actionGo eid linkId os)) :=
    .some (conserves_go h heid linkId)
  exact .ite (hsame rfl) <| .ite hinventory <| .ite (.some (conserves_take h heid _)) <|
    .ite (.some (conserves_drop h heid _)) <| .ite (hgo 1) <| .ite (hgo 2) <| .ite (hgo 3) <|
    .ite (hgo 4) <| .ite (.some (conserves_give h heid _)) <| .ite (hsame rfl) <|
    .ite (hsame rfl) <| .ite (hsame (actionSdcardRead_world _ os)) <|
    .ite (hsame (actionSdcardWrite_world _ os)) <| .ite (hsame rfl) (hsame rfl)

end Actions

/-- A line, the entity that it is for and what it finds of the platform. -/
structure Command where
  platform : Platform
  eid : Id
  line : Text

/-- Command lines of some entities, one after the other. -/
def handleLines : List Command → State → Option State
  | [], os => some os
  | c :: cs, os => do handleLines cs (← handleInput c.platform c.eid c.line os)

/-- A session keeps the world well formed and loses nothing. -/
theorem conserves_handleLines {os : State} (h : os.world.WellFormed) {commands : List Command}
    (heid : ∀ c ∈ commands, os.world.IsEntity c.eid) :
    ∃ os', handleLines commands os = some os' ∧ os.world.Conserves os'.world := by
  induction commands generalizing os with
  | nil => exact ⟨os, rfl, .refl h⟩
  | cons c commands ih =>
      obtain ⟨os₁, hstep, hfirst⟩ :=
        conserves_handleInput c.platform h (heid c List.mem_cons_self) c.line
      obtain ⟨os₂, hall, hrest⟩ := ih hfirst.wellFormed fun c' hc' ↦
        hfirst.isEntity _ (heid c' (List.mem_cons_of_mem _ hc'))
      refine ⟨os₂, ?_, hrest.wellFormed, hrest.objectIds.trans hfirst.objectIds,
        fun id hid ↦ hrest.isEntity id (hfirst.isEntity id hid)⟩
      rw [handleLines, hstep]
      exact hall

theorem wellFormed_initial : World.initial.WellFormed where
  entities := by
    intro i (hi : i < 3)
    interval_cases i <;> exact ⟨by decide, by decide⟩
  locations := by
    intro i (hi : i < 5)
    interval_cases i <;> exact ⟨by decide, by decide, by decide, by decide, by decide⟩
  place := by
    intro i (hi : i < 5)
    interval_cases i <;> decide
  once := by
    intro id hid
    have hid : id = 1 ∨ id = 2 := by
      obtain ⟨hpos, (hlt : id.toNat < 3)⟩ := hid
      have : id.toNat = 1 ∨ id.toNat = 2 := by omega
      exact this.imp BitVec.eq_of_toNat_eq BitVec.eq_of_toNat_eq
    obtain rfl | rfl := hid <;> decide

/-- The first one goes north and takes the notebook there. -/
theorem conserves_handleLines_notebook :
    ∃ os', handleLines [⟨⟨[], 0⟩, 1, cstr "n"⟩, ⟨⟨[], 0⟩, 1, cstr "t notebook"⟩]
        ⟨.initial, [], fun _ ↦ [], [], false⟩ = some os' ∧
      World.initial.Conserves os'.world := by
  have heid : ∀ c ∈ [(⟨⟨[], 0⟩, 1, cstr "n"⟩ : Command), ⟨⟨[], 0⟩, 1, cstr "t notebook"⟩],
      World.initial.IsEntity c.eid := by
    intro c hc
    rcases List.mem_pair.mp hc with rfl | rfl <;> decide
  exact @conserves_handleLines ⟨.initial, [], fun _ ↦ [], [], false⟩ wellFormed_initial _ heid

end TangNano.Os
