import Mathlib.Data.List.Forall2
import PathAlias.Proofs.Candidate

/-!
Which candidate decides. A candidate of a request has a position: the rank of its entry, the
target of that entry, and a slot among the candidates of one mapped path. Positions are ordered
lexicographically. A search ends with the first candidate that does not miss, and asks about the
candidates up to that one and about no other.
-/

namespace PathAlias

/-- Where a candidate stands among the candidates of one mapped path. -/
inductive Slot
  | file
  /-- The mapped path with the extension of this number. -/
  | extension (number : Nat)
  | package
  /-- The index file with the extension of this number. -/
  | index (number : Nat)
  deriving DecidableEq

/-- The numbers that slots are compared by. -/
def Slot.key : Slot → List Nat
  | .file => [0]
  | .extension number => [1, number]
  | .package => [2]
  | .index number => [3, number]

/-- The candidate of a slot, if there are as many extensions. -/
def Slot.candidate? (extensions : List Text) (mapped : Text) : Slot → Option Candidate
  | .file => some { kind := .file, path := mapped }
  | .extension number =>
      extensions[number]?.map fun ext => { kind := .extension, path := mapped ++ ext }
  | .package => some { kind := .package, path := join mapped "package.json" }
  | .index number =>
      extensions[number]?.map fun ext => { kind := .index, path := join mapped "index" ++ ext }

/-- Where a candidate of a request stands. -/
structure Position where
  /-- The rank of its entry. -/
  rank : Nat
  /-- The number of the target among those of the entry. -/
  target : Nat
  /-- The slot among the candidates of the mapped path. -/
  slot : Slot
  deriving DecidableEq

namespace Position

/-- The numbers that positions are compared by. -/
def key (position : Position) : List Nat := position.rank :: position.target :: position.slot.key

/-- One position comes before another in the lexicographic order. -/
def Before (first second : Position) : Prop := first.key < second.key

/-- The mapped path that the candidate at a position is made of: the target of the position, with what
the entry of its rank captures of the request put in. -/
def mapped? (entries : List Entry) (request : Text) (position : Position) : Option Text :=
  if isUnmappable request then none
  else
    entries[position.rank]?.bind fun entry =>
      (entry.captures? request).bind fun captured =>
        entry.targets[position.target]?.map fun template => substitute template captured

/-- The candidate at a position, if there is one. -/
def candidate? (extensions : List Text) (entries : List Entry) (request : Text)
    (position : Position) : Option Candidate :=
  (position.mapped? entries request).bind fun mapped => position.slot.candidate? extensions mapped

variable {extensions : List Text} {entries : List Entry} {request mapped : Text}
  {position : Position}

theorem mapped?_eq_some_iff :
    position.mapped? entries request = some mapped ↔
      isUnmappable request = false ∧ ∃ entry captured template,
        entries[position.rank]? = some entry ∧ entry.captures? request = some captured ∧
        entry.targets[position.target]? = some template ∧
        substitute template captured = mapped := by
  rw [mapped?]
  cases isUnmappable request with
  | true => simp
  | false => simp [Option.bind_eq_some_iff]

theorem candidate?_of_mapped? (h : position.mapped? entries request = some mapped) :
    position.candidate? extensions entries request = position.slot.candidate? extensions mapped := by
  rw [candidate?, h, Option.bind_some]

end Position

theorem Position.Before.irrefl (position : Position) : ¬ position.Before position :=
  List.lt_irrefl _

theorem Position.Before.asymm {first second : Position} (h : first.Before second) :
    ¬ second.Before first :=
  List.lt_asymm h

/-! ### Searching a list in the order of its positions -/

namespace Lookup

variable {α β : Type} (fs : FileSystem Id) (probe : β → Lookup (Option α))

theorem run_firstSome_cons (first : β) (rest : List β) :
    (firstSome probe (first :: rest)).run fs =
      match (probe first).run fs with
      | .ok none => (firstSome probe rest).run fs
      | decided => decided := by
  rw [firstSome, run_bind]
  match (probe first).run fs with
  | .ok none => rfl
  | .ok (some hit) => rfl
  | .error e => rfl

theorem asked_firstSome_cons (first : β) (rest : List β) :
    (firstSome probe (first :: rest)).asked fs =
      (probe first).asked fs ++
        match (probe first).run fs with
        | .ok none => (firstSome probe rest).asked fs
        | _ => [] := by
  rw [firstSome, asked_bind]
  match (probe first).run fs with
  | .ok none => rfl
  | .ok (some hit) => rfl
  | .error e => rfl

/-- Items that stand in the order of their positions. -/
def Placed (items : List (Position × β)) : Prop := items.Pairwise fun x y => x.1.Before y.1

/-- All items before a position give nothing. -/
def EarlierMiss (items : List (Position × β)) (position : Position) : Prop :=
  ∀ item ∈ items, item.1.Before position → (probe item.2).run fs = Except.ok none

variable {fs probe}

theorem earlierMiss_head {first : Position × β} {rest : List (Position × β)}
    (hplaced : Placed (first :: rest)) : EarlierMiss fs probe (first :: rest) first.1 := by
  intro item hitem hlt
  rcases List.mem_cons.mp hitem with rfl | hrest
  · exact absurd hlt (Position.Before.irrefl _)
  · have hbefore := (List.pairwise_cons.mp hplaced).1 item hrest
    exact absurd hlt hbefore.asymm

theorem earlierMiss_tail {first item : Position × β} {rest : List (Position × β)}
    (hplaced : Placed (first :: rest)) (hitem : item ∈ rest) :
    EarlierMiss fs probe (first :: rest) item.1 ↔
      (probe first.2).run fs = Except.ok none ∧ EarlierMiss fs probe rest item.1 := by
  have hfirst := (List.pairwise_cons.mp hplaced).1 item hitem
  constructor
  · intro h
    have hmiss := h first List.mem_cons_self hfirst
    exact ⟨hmiss, fun other hother => h other (List.mem_cons_of_mem _ hother)⟩
  · rintro ⟨hmiss, hrest⟩ other hother hlt
    rcases List.mem_cons.mp hother with rfl | hother
    · exact hmiss
    · exact hrest other hother hlt

/-- What decides a search is the first item that does not miss. -/
theorem run_firstSome_iff (items : List (Position × β)) (hplaced : Placed items)
    (decided : Except Error (Option α)) (hdecided : decided ≠ .ok none) :
    (firstSome probe (items.map Prod.snd)).run fs = decided ↔
      ∃ item ∈ items, (probe item.2).run fs = decided ∧ EarlierMiss fs probe items item.1 := by
  induction items with
  | nil =>
      constructor
      · intro h
        exact absurd h.symm hdecided
      · rintro ⟨item, hitem, _⟩
        cases hitem
  | cons first rest ih =>
      have hrest := ih (List.pairwise_cons.mp hplaced).2
      rw [List.map_cons, run_firstSome_cons]
      by_cases hmiss : (probe first.2).run fs = Except.ok none
      · rw [hmiss]
        refine hrest.trans ⟨?_, ?_⟩
        · rintro ⟨item, hitem, hrun, hearlier⟩
          have hall := (earlierMiss_tail hplaced hitem).mpr ⟨hmiss, hearlier⟩
          exact ⟨item, List.mem_cons_of_mem _ hitem, hrun, hall⟩
        · rintro ⟨item, hitem, hrun, hearlier⟩
          rcases List.mem_cons.mp hitem with rfl | hitem
          · exact absurd (hrun.symm.trans hmiss) hdecided
          · have hlater := (earlierMiss_tail hplaced hitem).mp hearlier
            exact ⟨item, hitem, hrun, hlater.2⟩
      · have hfirst : (match (probe first.2).run fs with
            | .ok none => (firstSome probe (rest.map Prod.snd)).run fs
            | decided => decided) = (probe first.2).run fs := by
          match hrun : (probe first.2).run fs with
          | .ok none => exact absurd hrun hmiss
          | .ok (some hit) => rfl
          | .error e => rfl
        rw [hfirst]
        constructor
        · intro hrun
          exact ⟨first, List.mem_cons_self, hrun, earlierMiss_head hplaced⟩
        · rintro ⟨item, hitem, hrun, hearlier⟩
          rcases List.mem_cons.mp hitem with rfl | hitem
          · exact hrun
          · have hfirst := (earlierMiss_tail hplaced hitem).mp hearlier
            exact absurd hfirst.1 hmiss

theorem run_firstSome_none_iff (items : List β) :
    (firstSome probe items).run fs = Except.ok none ↔
      ∀ item ∈ items, (probe item).run fs = Except.ok none := by
  induction items with
  | nil => exact ⟨fun _ item hitem => absurd hitem List.not_mem_nil, fun _ => rfl⟩
  | cons first rest ih =>
      rw [run_firstSome_cons, List.forall_mem_cons, ← ih]
      match (probe first).run fs with
      | .ok none => exact ⟨fun h => ⟨rfl, h⟩, fun h => h.2⟩
      | .ok (some hit) => exact ⟨(fun h => nomatch h), (fun h => nomatch h.1)⟩
      | .error e => exact ⟨(fun h => nomatch h), (fun h => nomatch h.1)⟩

/-- The questions of a search are those of the items up to the one that decides. -/
theorem asked_firstSome (items : List (Position × β)) (hplaced : Placed items) :
    ∃ scanned : List (Position × β), scanned.Sublist items ∧
      (∀ item, item ∈ scanned ↔ item ∈ items ∧ EarlierMiss fs probe items item.1) ∧
      (firstSome probe (items.map Prod.snd)).asked fs =
        scanned.flatMap fun item => (probe item.2).asked fs := by
  induction items with
  | nil =>
      refine ⟨[], List.Sublist.refl _, fun item => ?_, rfl⟩
      exact ⟨fun h => absurd h List.not_mem_nil, fun h => h.1⟩
  | cons first rest ih =>
      rw [List.map_cons, asked_firstSome_cons]
      have hself : first ∈ first :: rest ∧ EarlierMiss fs probe (first :: rest) first.1 :=
        ⟨List.mem_cons_self, earlierMiss_head hplaced⟩
      by_cases hmiss : (probe first.2).run fs = Except.ok none
      · obtain ⟨scanned, hsub, hmem, hasked⟩ := ih (List.pairwise_cons.mp hplaced).2
        refine ⟨first :: scanned, hsub.cons_cons first, fun item => ?_, ?_⟩
        · rw [List.mem_cons, hmem]
          constructor
          · rintro (rfl | ⟨hitem, hearlier⟩)
            · exact hself
            · have hall := (earlierMiss_tail hplaced hitem).mpr ⟨hmiss, hearlier⟩
              exact ⟨List.mem_cons_of_mem _ hitem, hall⟩
          · rintro ⟨hitem, hearlier⟩
            rcases List.mem_cons.mp hitem with rfl | hitem
            · exact Or.inl rfl
            · have hlater := (earlierMiss_tail hplaced hitem).mp hearlier
              exact Or.inr ⟨hitem, hlater.2⟩
        · rw [hmiss, List.flatMap_cons, hasked]
      · refine ⟨[first], List.cons_sublist_cons.mpr (List.nil_sublist _), fun item => ?_, ?_⟩
        · rw [List.mem_singleton]
          constructor
          · rintro rfl
            exact hself
          · rintro ⟨hitem, hearlier⟩
            rcases List.mem_cons.mp hitem with rfl | hitem
            · rfl
            · have hfirst := (earlierMiss_tail hplaced hitem).mp hearlier
              exact absurd hfirst.1 hmiss
        · rw [List.flatMap_singleton]
          match hrun : (probe first.2).run fs with
          | .ok none => exact absurd hrun hmiss
          | .ok (some hit) => exact List.append_nil _
          | .error e => exact List.append_nil _

end Lookup

/-! ### The candidates of a request with their positions -/

/-- The paths that an entry maps a request to are its targets with what it captures put in. -/
theorem Entry.getElem?_mapped (entry : Entry) (request : Text) (number : Nat) :
    (entry.mapped request)[number]? =
      (entry.captures? request).bind fun captured =>
        entry.targets[number]?.map fun template => substitute template captured := by
  rw [mapped]
  cases entry.captures? request with
  | none => rfl
  | some captured => exact List.getElem?_map

theorem pairwise_zipIdx {β : Type} (items : List β) :
    items.zipIdx.Pairwise fun x y => x.2 < y.2 := by
  have hsnd : (items.zipIdx.map Prod.snd).Pairwise (· < ·) := by
    rw [List.zipIdx_map_snd]
    exact List.pairwise_lt_range'
  exact List.pairwise_map.mp hsnd

/-- The candidates of one mapped path with their slots. -/
def slotted (extensions : List Text) (mapped : Text) : List (Slot × Candidate) :=
  (.file, { kind := .file, path := mapped })
    :: extensions.zipIdx.map (fun ext =>
        (.extension ext.2, { kind := .extension, path := mapped ++ ext.1 }))
    ++ (.package, { kind := .package, path := join mapped "package.json" })
    :: extensions.zipIdx.map (fun ext =>
        (.index ext.2, { kind := .index, path := join mapped "index" ++ ext.1 }))

theorem map_snd_slotted (extensions : List Text) (mapped : Text) :
    (slotted extensions mapped).map Prod.snd = candidatesAt extensions mapped := by
  have hfst : ∀ make : Text → Candidate,
      extensions.zipIdx.map (fun ext => make ext.1) = extensions.map make := by
    intro make
    calc extensions.zipIdx.map (fun ext => make ext.1)
        = (extensions.zipIdx.map Prod.fst).map make := (List.map_map ..).symm
      _ = extensions.map make := by rw [List.zipIdx_map_fst]
  rw [slotted, candidatesAt, List.map_append, List.map_cons, List.map_cons, List.map_map,
    List.map_map, ← hfst, ← hfst]
  rfl

theorem mem_slotted_iff (extensions : List Text) (mapped : Text) (slot : Slot)
    (candidate : Candidate) :
    (slot, candidate) ∈ slotted extensions mapped ↔
      slot.candidate? extensions mapped = some candidate := by
  have hnumbered : ∀ (number : Nat) (make : Text → Candidate),
      (∃ ext ∈ extensions.zipIdx, ext.2 = number ∧ make ext.1 = candidate) ↔
        extensions[number]?.map make = some candidate := by
    intro number make
    rw [Option.map_eq_some_iff]
    constructor
    · rintro ⟨ext, hext, rfl, hmake⟩
      exact ⟨ext.1, List.mem_zipIdx_iff_getElem?.mp hext, hmake⟩
    · rintro ⟨ext, hext, hmake⟩
      exact ⟨(ext, number), List.mk_mem_zipIdx_iff_getElem?.mpr hext, rfl, hmake⟩
  simp only [slotted, List.mem_append, List.mem_cons, List.mem_map, Prod.mk.injEq]
  cases slot with
  | file => simp [Slot.candidate?, eq_comm]
  | extension number => simp [Slot.candidate?, ← hnumbered]
  | package => simp [Slot.candidate?, eq_comm]
  | index number => simp [Slot.candidate?, ← hnumbered]

theorem numbered_lt (kind : Nat) {first second : Nat} (h : first < second) :
    [kind, first] < [kind, second] := List.Lex.cons (List.Lex.rel h)

theorem pairwise_slotted (extensions : List Text) (mapped : Text) :
    (slotted extensions mapped).Pairwise fun x y => x.1.key < y.1.key := by
  rw [slotted, List.pairwise_append, List.pairwise_cons, List.pairwise_cons, List.pairwise_map,
    List.pairwise_map]
  refine ⟨⟨fun y hy => ?_, ?_⟩, ⟨fun y hy => ?_, ?_⟩, fun x hx y hy => ?_⟩
  · obtain ⟨ext, _, rfl⟩ := List.mem_map.mp hy
    exact List.Lex.rel (by decide)
  · exact (pairwise_zipIdx extensions).imp fun hlt => numbered_lt _ hlt
  · obtain ⟨ext, _, rfl⟩ := List.mem_map.mp hy
    exact List.Lex.rel (by decide)
  · exact (pairwise_zipIdx extensions).imp fun hlt => numbered_lt _ hlt
  · simp only [List.mem_cons, List.mem_map] at hx hy
    rcases hx with rfl | ⟨_, _, rfl⟩ <;> rcases hy with rfl | ⟨_, _, rfl⟩ <;>
      exact List.Lex.rel (by decide)

/-- The candidates of a request with their positions. -/
def placed (extensions : List Text) (entries : List Entry) (request : Text) :
    List (Position × Candidate) :=
  if isUnmappable request then []
  else
    entries.zipIdx.flatMap fun entry =>
      (entry.1.mapped request).zipIdx.flatMap fun mapped =>
        (slotted extensions mapped.1).map fun slotted =>
          ({ rank := entry.2, target := mapped.2, slot := slotted.1 }, slotted.2)

theorem map_flatMap_zipIdx {β γ δ : Type} (items : List β) (below : β × Nat → List γ)
    (read : γ → δ) (plain : β → List δ) (h : ∀ item, (below item).map read = plain item.1) :
    (items.zipIdx.flatMap below).map read = items.flatMap plain := by
  rw [List.map_flatMap]
  calc (items.zipIdx.flatMap fun item => (below item).map read)
      = items.zipIdx.flatMap fun item => plain item.1 := by rw [funext h]
    _ = (items.zipIdx.map Prod.fst).flatMap plain := (List.flatMap_map ..).symm
    _ = items.flatMap plain := by rw [List.zipIdx_map_fst]

theorem map_snd_placed (extensions : List Text) (entries : List Entry) (request : Text) :
    (placed extensions entries request).map Prod.snd = candidates extensions entries request := by
  rw [placed, candidates]
  split_ifs with hunmappable
  · rfl
  · apply map_flatMap_zipIdx
    intro entry
    apply map_flatMap_zipIdx
    intro mapped
    rw [List.map_map, ← map_snd_slotted]
    rfl

theorem mem_placed_iff (extensions : List Text) (entries : List Entry) (request : Text)
    (position : Position) (candidate : Candidate) :
    (position, candidate) ∈ placed extensions entries request ↔
      position.candidate? extensions entries request = some candidate := by
  rw [placed, Position.candidate?, Position.mapped?]
  split_ifs with hunmappable
  · exact ⟨(fun h => nomatch h), (fun h => nomatch h)⟩
  · simp only [← Entry.getElem?_mapped, Option.bind_assoc, List.mem_flatMap, List.mem_map,
      Option.bind_eq_some_iff]
    constructor
    · rintro ⟨entry, hentry, mapped, hmapped, ⟨slot, found⟩, hslot, heq⟩
      obtain ⟨rfl, rfl⟩ := Prod.mk.inj heq
      have hrank := List.mem_zipIdx_iff_getElem?.mp hentry
      have htarget := List.mem_zipIdx_iff_getElem?.mp hmapped
      exact ⟨entry.1, hrank, mapped.1, htarget, (mem_slotted_iff _ _ _ _).mp hslot⟩
    · rintro ⟨entry, hrank, mapped, htarget, hslot⟩
      refine ⟨(entry, position.rank), ?_, (mapped, position.target), ?_,
        (position.slot, candidate), ?_, rfl⟩
      · exact List.mem_zipIdx_iff_getElem?.mpr hrank
      · exact List.mem_zipIdx_iff_getElem?.mpr htarget
      · exact (mem_slotted_iff _ _ _ _).mpr hslot

theorem placed_ordered (extensions : List Text) (entries : List Entry) (request : Text) :
    Lookup.Placed (placed extensions entries request) := by
  rw [Lookup.Placed, placed]
  split_ifs with hunmappable
  · exact List.Pairwise.nil
  · rw [List.pairwise_flatMap]
    refine ⟨fun entry _ => ?_, (pairwise_zipIdx entries).imp fun hrank x hx y hy => ?_⟩
    · rw [List.pairwise_flatMap]
      refine ⟨fun mapped _ => ?_, (pairwise_zipIdx _).imp fun htarget x hx y hy => ?_⟩
      · exact List.pairwise_map.mpr ((pairwise_slotted extensions mapped.1).imp fun hslot =>
          List.Lex.cons (List.Lex.cons hslot))
      · obtain ⟨_, _, rfl⟩ := List.mem_map.mp hx
        obtain ⟨_, _, rfl⟩ := List.mem_map.mp hy
        exact List.Lex.cons (List.Lex.rel htarget)
    · obtain ⟨_, _, hx⟩ := List.mem_flatMap.mp hx
      obtain ⟨_, _, hy⟩ := List.mem_flatMap.mp hy
      obtain ⟨_, _, rfl⟩ := List.mem_map.mp hx
      obtain ⟨_, _, rfl⟩ := List.mem_map.mp hy
      exact List.Lex.rel hrank

namespace Matcher

/-- What a search ends with under fixed answers, and the questions it asks, in order. -/
def recorded (matcher : Matcher) (fs : FileSystem Id) (extensions : List Text) (request : Text) :
    Except Error (Option Text) × List Question :=
  ((matcher.search extensions request).run (recording fs)).run []

variable (fs : FileSystem Id) (matcher : Matcher) (extensions : List Text) (request : Text)

/-- All candidates before a position are probed without an error and miss. -/
def MissesBefore (position : Position) : Prop :=
  ∀ (earlier : Position) (candidate : Candidate), earlier.Before position →
    earlier.candidate? extensions matcher.entries request = some candidate →
    candidate.Misses fs matcher.mainFields

theorem earlierMiss_placed_iff (position : Position) :
    Lookup.EarlierMiss fs (Candidate.probe matcher.mainFields)
        (placed extensions matcher.entries request) position ↔
      matcher.MissesBefore fs extensions request position := by
  constructor
  · intro h earlier candidate hbefore hcandidate
    have hitem := (mem_placed_iff _ _ _ _ _).mpr hcandidate
    have hmiss := h (earlier, candidate) hitem hbefore
    exact (candidate.misses_iff fs _).mpr hmiss
  · intro h item hitem hbefore
    have hcandidate := (mem_placed_iff _ _ _ _ _).mp hitem
    have hmisses := h item.1 item.2 hbefore hcandidate
    exact (item.2.misses_iff fs _).mp hmisses

theorem search_eq :
    matcher.search extensions request =
      Lookup.firstSome (Candidate.probe matcher.mainFields)
        ((placed extensions matcher.entries request).map Prod.snd) := by
  rw [search, map_snd_placed]

/-- A search is decided by the first candidate that does not miss. -/
theorem run_search_iff (decided : Except Error (Option Text)) (hdecided : decided ≠ .ok none) :
    (matcher.search extensions request).run fs = decided ↔
      ∃ (position : Position) (candidate : Candidate),
        position.candidate? extensions matcher.entries request = some candidate ∧
        (candidate.probe matcher.mainFields).run fs = decided ∧
        matcher.MissesBefore fs extensions request position := by
  rw [search_eq, Lookup.run_firstSome_iff _ (placed_ordered _ _ _) decided hdecided]
  constructor
  · rintro ⟨item, hitem, hrun, hearlier⟩
    have hcandidate := (mem_placed_iff _ _ _ _ _).mp hitem
    have hmisses := (matcher.earlierMiss_placed_iff fs extensions request _).mp hearlier
    exact ⟨item.1, item.2, hcandidate, hrun, hmisses⟩
  · rintro ⟨position, candidate, hcandidate, hrun, hmisses⟩
    have hitem := (mem_placed_iff _ _ _ _ _).mpr hcandidate
    have hearlier := (matcher.earlierMiss_placed_iff fs extensions request _).mpr hmisses
    exact ⟨(position, candidate), hitem, hrun, hearlier⟩

theorem run_search_none_iff :
    (matcher.search extensions request).run fs = Except.ok none ↔
      ∀ (position : Position) (candidate : Candidate),
        position.candidate? extensions matcher.entries request = some candidate →
        candidate.Misses fs matcher.mainFields := by
  rw [search_eq, Lookup.run_firstSome_none_iff]
  constructor
  · intro h position candidate hcandidate
    have hitem := (mem_placed_iff _ _ _ _ _).mpr hcandidate
    have hmiss := h candidate (List.mem_map_of_mem hitem)
    exact (candidate.misses_iff fs _).mpr hmiss
  · intro h candidate hcandidate
    obtain ⟨item, hitem, rfl⟩ := List.mem_map.mp hcandidate
    have hmisses := h item.1 item.2 ((mem_placed_iff _ _ _ _ _).mp hitem)
    exact (item.2.misses_iff fs _).mp hmisses

/-- A search asks about the candidates up to the one that decides, in order. -/
theorem asked_search :
    ∃ scanned : List (Position × Candidate),
      scanned.Pairwise (fun x y => x.1.Before y.1) ∧
      (∀ position candidate, (position, candidate) ∈ scanned ↔
        position.candidate? extensions matcher.entries request = some candidate ∧
          matcher.MissesBefore fs extensions request position) ∧
      ∃ rows : List (List Question),
        List.Forall₂ (fun item row => item.2.Asks fs matcher.mainFields row) scanned rows ∧
        (matcher.search extensions request).asked fs = rows.flatten := by
  obtain ⟨scanned, hsub, hmem, hasked⟩ :=
    @Lookup.asked_firstSome _ _ fs (Candidate.probe matcher.mainFields)
      (placed extensions matcher.entries request) (placed_ordered _ _ _)
  refine ⟨scanned, (placed_ordered _ _ _).sublist hsub, fun position candidate => ?_,
    scanned.map fun item => (item.2.probe matcher.mainFields).asked fs, ?_, ?_⟩
  · rw [hmem, mem_placed_iff, earlierMiss_placed_iff]
  · rw [List.forall₂_map_right_iff, List.forall₂_same]
    exact fun item _ => item.2.asks_probe fs matcher.mainFields
  · rw [search_eq, hasked, List.flatMap_def]

end Matcher

/-- **The first candidate that does not miss decides.** Among all candidates of a request over a
compiled table, a hit or an error decides if every candidate before it misses, and nothing is
found if all miss. What is asked is what is asked about each candidate up to the deciding one, in
order, and nothing about a later one; an empty, relative or absolute request is answered without a question. -/
theorem deciding_candidate (base : Text) (table : PathTable) (matchAll : Bool)
    (extensions mainFields : List Text) (request : Text) (fs : FileSystem Id) :
    let matcher := Matcher.ofTable base table mainFields matchAll
    let candidate? := Position.candidate? extensions (compile base table matchAll) request
    let resolved : Except Error (Option Text) × List Question :=
      ((matcher.search extensions request).run (recording fs)).run []
    (∀ answer, resolved.1 = .ok (some answer) ↔
      ∃ position candidate, candidate? position = some candidate ∧
        candidate.Hits fs mainFields answer ∧
        ∀ earlier other, earlier.Before position → candidate? earlier = some other →
          other.Misses fs mainFields) ∧
    (∀ e, resolved.1 = .error e ↔
      ∃ position candidate, candidate? position = some candidate ∧
        candidate.Fails fs mainFields e ∧
        ∀ earlier other, earlier.Before position → candidate? earlier = some other →
          other.Misses fs mainFields) ∧
    (resolved.1 = .ok none ↔
      ∀ position candidate, candidate? position = some candidate →
        candidate.Misses fs mainFields) ∧
    (∃ scanned : List (Position × Candidate),
      scanned.Pairwise (fun x y => x.1.Before y.1) ∧
      (∀ position candidate, (position, candidate) ∈ scanned ↔
        candidate? position = some candidate ∧
          ∀ earlier other, earlier.Before position → candidate? earlier = some other →
            other.Misses fs mainFields) ∧
      ∃ rows : List (List Question),
        List.Forall₂ (fun item row => item.2.Asks fs mainFields row) scanned rows ∧
        resolved.2 = rows.flatten) ∧
    (request = [] ∨ request.head? = some '.' ∨ request.head? = some '/' →
      resolved = (.ok none, [])) := by
  intro matcher candidate? resolved
  have hresolved : resolved = ((matcher.search extensions request).run fs,
      (matcher.search extensions request).asked fs) := Lookup.run_recording fs _ []
  rw [hresolved]
  refine ⟨fun answer => ?_, fun e => ?_, matcher.run_search_none_iff fs extensions request,
    matcher.asked_search fs extensions request, fun hrequest => ?_⟩
  · refine (matcher.run_search_iff fs extensions request _ (by simp)).trans ?_
    simp only [← Candidate.hits_iff]
    rfl
  · refine (matcher.run_search_iff fs extensions request _ (by simp)).trans ?_
    simp only [← Candidate.fails_iff]
    rfl
  · have hunmappable : isUnmappable request = true := by
      cases request with
      | nil => rfl
      | cons c rest =>
          simpa only [isUnmappable, List.head?_cons, Option.some.injEq, Bool.or_eq_true,
            beq_iff_eq, reduceCtorEq, false_or] using hrequest
    have hnone : matcher.search extensions request = .done none := by
      rw [Matcher.search, candidates, if_pos hunmappable]
      rfl
    rw [hnone]
    rfl

end PathAlias
