import Mathlib.Data.List.Perm.Basic
import Mathlib.Data.List.TakeWhile
import Mathlib.Logic.Function.Basic
import Substrate.Roots

/-!
# Who owns an exclusion

The registry keeps one sorted list of excluded regions and does not record who asked for which. Equal
regions of different owners cannot be told apart in it, and lifting one takes out the first that is
equal. That is enough: the list always has as many copies of a region as there are owners that want it
excluded, so it does not matter whose copy goes.

`Registry.Run` keeps the books: the regions that were excluded by hand and not lifted since, and the
segments of each library as last registered. `Registry.Balanced` is the invariant that the list agrees
with the books.
-/

namespace Substrate

variable {e : Exclusions} {r : Registry} {region : Region} {regions : List Region}
  {name : String} {address : Nat}

theorem Region.isEmpty_of_contains (h : region.contains address = true) : region.isEmpty = false := by
  simp only [Region.contains, Region.isEmpty, Bool.and_eq_true, decide_eq_true_eq] at *
  grind

namespace Exclusions

/-! ## The list -/

def Sorted (e : Exclusions) : Prop :=
  e.regions.Pairwise fun region other => region.start ≤ other.start

/-- The regions of the list that may be kept in it. -/
def kept (regions : List Region) : List Region :=
  regions.filter fun region => !region.isEmpty

@[simp] theorem kept_append (regions others : List Region) :
    kept (regions ++ others) = kept regions ++ kept others :=
  List.filter_append ..

theorem kept_cons (region : Region) (regions : List Region) :
    kept (region :: regions) = if region.isEmpty then kept regions else region :: kept regions := by
  cases h : region.isEmpty <;> simp [kept, h]

theorem isEmpty_of_mem_kept (h : region ∈ kept regions) : region.isEmpty = false := by
  simpa using (List.mem_filter.mp h).2

theorem regions_exclude (e : Exclusions) (region : Region) :
    (e.exclude region).regions.Perm (kept [region] ++ e.regions) := by
  rw [exclude, kept_cons]
  split
  · exact .refl _
  · refine List.perm_middle.trans ?_
    simp [kept, List.takeWhile_append_dropWhile]

/-- What is not passed by when a place for the region is sought starts later. -/
theorem start_le_of_mem_dropWhile (h : e.Sorted) {other : Region}
    (hother : other ∈ e.regions.dropWhile (·.start ≤ region.start)) :
    region.start ≤ other.start := by
  obtain ⟨regions⟩ := e
  induction regions with
  | nil => simp at hother
  | cons head tail ih =>
    obtain ⟨hhead, htail⟩ := List.pairwise_cons.mp h
    rw [List.dropWhile_cons] at hother
    split at hother
    · exact ih htail hother
    · grind

theorem Sorted.exclude (h : e.Sorted) (region : Region) : (e.exclude region).Sorted := by
  rw [Exclusions.exclude]
  split
  · exact h
  have hlater := h.sublist (List.dropWhile_sublist (l := e.regions) (·.start ≤ region.start))
  refine List.pairwise_append.mpr ⟨h.sublist (List.takeWhile_sublist _),
    List.pairwise_cons.mpr ⟨fun other hother => start_le_of_mem_dropWhile h hother, hlater⟩, ?_⟩
  intro earlier hearlier other hother
  have hle : earlier.start ≤ region.start := by simpa using List.mem_takeWhile_imp hearlier
  obtain rfl | hother := List.mem_cons.mp hother
  · exact hle
  · exact Nat.le_trans hle (start_le_of_mem_dropWhile h hother)

theorem Sorted.lift (h : e.Sorted) (region : Region) : (e.lift region).2.Sorted :=
  h.sublist List.erase_sublist

/-! ## Several regions at once -/

theorem Sorted.foldl_exclude (h : e.Sorted) (segments : List Region) :
    (segments.foldl Exclusions.exclude e).Sorted := by
  induction segments generalizing e with
  | nil => exact h
  | cons segment segments ih => exact ih (h.exclude segment)

theorem Sorted.foldl_lift (h : e.Sorted) (segments : List Region) :
    (segments.foldl (fun e segment => (e.lift segment).2) e).Sorted := by
  induction segments generalizing e with
  | nil => exact h
  | cons segment segments ih => exact ih (h.lift segment)

theorem regions_foldl_exclude (e : Exclusions) (segments : List Region) :
    (segments.foldl Exclusions.exclude e).regions.Perm (kept segments ++ e.regions) := by
  induction segments generalizing e with
  | nil => exact .refl _
  | cons segment segments ih =>
    calc (segments.foldl Exclusions.exclude (e.exclude segment)).regions
      _ |>.Perm (kept segments ++ (e.exclude segment).regions) := ih _
      _ |>.Perm (kept segments ++ (kept [segment] ++ e.regions)) :=
        (regions_exclude e segment).append_left _
      _ |>.Perm (kept [segment] ++ (kept segments ++ e.regions)) := List.perm_append_comm_assoc ..
      _ = kept (segment :: segments) ++ e.regions := by
        rw [← List.append_assoc, ← kept_append, List.singleton_append]

theorem regions_lift (h : e.regions.Perm (kept (region :: regions))) :
    (e.lift region).2.regions.Perm (kept regions) := by
  rw [kept_cons] at h
  split at h
  next hempty =>
    have habsent : region ∉ e.regions := fun hin => by
      simp [isEmpty_of_mem_kept (h.mem_iff.mp hin)] at hempty
    rwa [lift, List.erase_of_not_mem habsent]
  next =>
    have := h.erase region
    rwa [List.erase_cons_head] at this

/-- Lifting regions that somebody has in the list leaves what the others have there. -/
theorem regions_foldl_lift {segments : List Region}
    (h : e.regions.Perm (kept (segments ++ regions))) :
    (segments.foldl (fun e segment => (e.lift segment).2) e).regions.Perm (kept regions) := by
  induction segments generalizing e with
  | nil => exact h
  | cons segment segments ih => exact ih (regions_lift h)

theorem isExcluded_iff (h : e.regions.Perm (kept regions)) :
    e.isExcluded address = true ↔ ∃ region ∈ regions, region.contains address = true := by
  simp only [isExcluded, List.any_eq_true, h.mem_iff, kept, List.mem_filter]
  grind [Region.isEmpty_of_contains]

end Exclusions

namespace Registry

/-! ## Libraries -/

/-- The names of the registered libraries. -/
def names (r : Registry) : List String :=
  r.libraries.map (·.1)

theorem segments?_cons (r : Registry) (library : String × List Region) (name : String) :
    segments? { r with libraries := library :: r.libraries } name =
      if library.1 = name then some library.2 else r.segments? name := by
  by_cases h : library.1 = name <;> simp [segments?, h]

theorem segments?_filter (r : Registry) (name other : String) :
    segments? { r with libraries := r.libraries.filter (·.1 != name) } other =
      if other = name then none else r.segments? other := by
  rw [segments?, segments?, List.find?_filter]
  split
  next heq => simp [heq]
  next hne =>
    congr 2
    grind

/-- No library is registered under a name that is not there. -/
theorem mem_names_iff : name ∈ r.names ↔ r.segments? name ≠ none := by
  simp [names, segments?, List.find?_eq_none]

/-- The segments of a library and those of the others. -/
theorem segments_perm (hnames : r.names.Nodup) (name : String) :
    (r.libraries.flatMap (·.2)).Perm ((r.segments? name).getD [] ++
      (r.libraries.filter (·.1 != name)).flatMap (·.2)) := by
  obtain ⟨locations, regions, exclusions, libraries⟩ := r
  induction libraries with
  | nil => exact .refl _
  | cons library libraries ih =>
    obtain ⟨hfresh, hrest⟩ := List.nodup_cons.mp hnames
    have hcons := segments?_cons ⟨locations, regions, exclusions, libraries⟩ library name
    by_cases h : library.1 = name
    · have hothers : libraries.filter (·.1 != name) = libraries := by
        refine List.filter_eq_self.mpr fun other hother => ?_
        have : other.1 ∈ libraries.map (·.1) := List.mem_map_of_mem hother
        grind
      simp [hcons, h, hothers]
    · rw [hcons, if_neg h, List.filter_cons_of_pos (by simpa using h), List.flatMap_cons,
        List.flatMap_cons]
      exact ((ih hrest).append_left _).trans (List.perm_append_comm_assoc ..)

/-- A region is a segment of some entry if it is one of a library that is found by its name. -/
theorem mem_segments_iff (hnames : r.names.Nodup) :
    region ∈ r.libraries.flatMap (·.2) ↔ ∃ name, region ∈ (r.segments? name).getD [] := by
  obtain ⟨locations, regions, exclusions, libraries⟩ := r
  induction libraries with
  | nil => simp [segments?]
  | cons library libraries ih =>
    obtain ⟨hfresh, hrest⟩ := List.nodup_cons.mp hnames
    have hcons := segments?_cons ⟨locations, regions, exclusions, libraries⟩ library
    rw [List.flatMap_cons, List.mem_append, ih hrest]
    constructor
    · rintro (hregion | ⟨name, hregion⟩)
      · exact ⟨library.1, by simpa [hcons] using hregion⟩
      · have hmem : name ∈ names ⟨locations, regions, exclusions, libraries⟩ :=
          mem_names_iff.mpr fun hnone => by simp [hnone] at hregion
        have hne : library.1 ≠ name := by
          rintro rfl
          exact hfresh hmem
        exact ⟨name, by simpa [hcons, hne] using hregion⟩
    · rintro ⟨name, hregion⟩
      grind

theorem libraries_unregisterLibrary (r : Registry) (name : String) :
    (r.unregisterLibrary name).2.libraries = r.libraries.filter (·.1 != name) := by
  rw [unregisterLibrary]
  split
  · rfl
  next hnone =>
    refine (List.filter_eq_self.mpr fun library hlibrary => ?_).symm
    have hname : library.1 ∈ r.names := List.mem_map_of_mem hlibrary
    grind [mem_names_iff]

/-! ## The books -/

/-- Who has what excluded. -/
structure Owners where
  /-- Excluded by hand and not lifted since, the latest first. -/
  manual : List Region
  /-- The segments of the libraries that are registered. -/
  libraries : String → Option (List Region)

/-- What a library owns. -/
def Owners.segments (o : Owners) (name : String) : List Region :=
  (o.libraries name).getD []

/-- Somebody has the address excluded. -/
def Owners.Covers (o : Owners) (address : Nat) : Prop :=
  (∃ region ∈ o.manual, region.contains address = true) ∨
    ∃ name, ∃ segment ∈ o.segments name, segment.contains address = true

/-- Runs of the registry, with the books kept beside it. By hand only those regions are lifted that
were excluded by hand. -/
inductive Run : Registry → Owners → Prop where
  | empty : Run .empty ⟨[], fun _ => none⟩
  | exclude {r : Registry} {o : Owners} (h : Run r o) (region : Region) :
      Run (r.exclude region) { o with manual := region :: o.manual }
  | lift {r : Registry} {o : Owners} (h : Run r o) {region : Region} (hregion : region ∈ o.manual) :
      Run (r.lift region).2 { o with manual := o.manual.erase region }
  | registerLibrary {r : Registry} {o : Owners} (h : Run r o) (name : String) (segments : List Region) :
      Run (r.registerLibrary name segments)
        { o with libraries := Function.update o.libraries name (some segments) }
  | unregisterLibrary {r : Registry} {o : Owners} (h : Run r o) (name : String) :
      Run (r.unregisterLibrary name).2 { o with libraries := Function.update o.libraries name none }
  | register {r : Registry} {o : Owners} (h : Run r o) (location : Nat) : Run (r.register location).2 o
  | unregister {r : Registry} {o : Owners} (h : Run r o) (location : Nat) :
      Run (r.unregister location).2 o
  | addRegion {r : Registry} {o : Owners} (h : Run r o) (region : Region) : Run (r.addRegion region) o
  | removeRegion {r : Registry} {o : Owners} (h : Run r o) (region : Region) :
      Run (r.removeRegion region).2 o

/-- The list of exclusions agrees with the books. -/
structure Balanced (r : Registry) (o : Owners) : Prop where
  sorted : r.exclusions.Sorted
  names : r.names.Nodup
  libraries : ∀ name, r.segments? name = o.libraries name
  exclusions : r.exclusions.regions.Perm
    (Exclusions.kept (o.manual ++ r.libraries.flatMap (·.2)))

variable {o : Owners}

theorem Balanced.exclude (h : r.Balanced o) (region : Region) :
    (r.exclude region).Balanced { o with manual := region :: o.manual } where
  sorted := h.sorted.exclude region
  names := h.names
  libraries := h.libraries
  exclusions := by
    refine (Exclusions.regions_exclude r.exclusions region).trans ?_
    exact (h.exclusions.append_left _).trans (.of_eq (Exclusions.kept_append [region] _).symm)

theorem Balanced.lift (h : r.Balanced o) (hregion : region ∈ o.manual) :
    (r.lift region).2.Balanced { o with manual := o.manual.erase region } where
  sorted := h.sorted.lift region
  names := h.names
  libraries := h.libraries
  exclusions := by
    have := (List.perm_cons_erase hregion).append_right (r.libraries.flatMap (·.2))
    exact Exclusions.regions_lift (h.exclusions.trans (this.filter _))

/-- What is left when a library goes. -/
theorem Balanced.unregisterLibrary (h : r.Balanced o) (name : String) :
    (r.unregisterLibrary name).2.Balanced
      { o with libraries := Function.update o.libraries name none } := by
  rw [Registry.unregisterLibrary]
  split
  next segments hsegments =>
    refine ⟨h.sorted.foldl_lift segments, ?_, fun other => ?_, Exclusions.regions_foldl_lift ?_⟩
    · exact h.names.sublist (List.filter_sublist.map _)
    · simp only [Function.update_apply, ← h.libraries]
      exact segments?_filter r name other
    · have hperm := segments_perm h.names name
      rw [hsegments, Option.getD_some] at hperm
      refine h.exclusions.trans (List.Perm.filter _ ?_)
      exact (hperm.append_left _).trans (List.perm_append_comm_assoc ..)
  next hnone =>
    have hsame : Function.update o.libraries name none = o.libraries := by
      rw [Function.update_eq_self_iff, ← h.libraries, hnone]
    rw [hsame]
    exact h

theorem Balanced.registerLibrary (h : r.Balanced o) (name : String) (segments : List Region) :
    (r.registerLibrary name segments).Balanced
      { o with libraries := Function.update o.libraries name (some segments) } := by
  have hgone := h.unregisterLibrary name
  have hnone : (r.unregisterLibrary name).2.segments? name = none := by simp [hgone.libraries]
  refine ⟨hgone.sorted.foldl_exclude segments, ?_, fun other => ?_, ?_⟩
  · exact List.nodup_cons.mpr ⟨fun hmem => mem_names_iff.mp hmem hnone, hgone.names⟩
  · refine (segments?_cons (r.unregisterLibrary name).2 (name, segments) other).trans ?_
    simp only [hgone.libraries, Function.update_apply]
    grind
  · refine (Exclusions.regions_foldl_exclude _ segments).trans ?_
    refine (hgone.exclusions.append_left _).trans ?_
    rw [← Exclusions.kept_append]
    exact (List.perm_append_comm_assoc ..).filter _

theorem Run.balanced (h : Run r o) : r.Balanced o := by
  induction h with
  | empty => exact ⟨List.Pairwise.nil, List.nodup_nil, fun _ => rfl, .refl _⟩
  | exclude _ region ih => exact ih.exclude region
  | lift _ hregion ih => exact ih.lift hregion
  | registerLibrary _ name segments ih => exact ih.registerLibrary name segments
  | unregisterLibrary _ name ih => exact ih.unregisterLibrary name
  | register _ location ih =>
    rw [Registry.register]
    split <;> exact ⟨ih.sorted, ih.names, ih.libraries, ih.exclusions⟩
  | unregister _ location ih =>
    rw [Registry.unregister]
    split <;> exact ⟨ih.sorted, ih.names, ih.libraries, ih.exclusions⟩
  | addRegion _ region ih => exact ⟨ih.sorted, ih.names, ih.libraries, ih.exclusions⟩
  | removeRegion _ region ih =>
    rw [Registry.removeRegion]
    split
    · split <;> exact ⟨ih.sorted, ih.names, ih.libraries, ih.exclusions⟩
    · exact ih

/-- What the registry excludes is what somebody has excluded. -/
theorem Balanced.isExcluded_iff (h : r.Balanced o) :
    r.exclusions.isExcluded address = true ↔ o.Covers address := by
  rw [Exclusions.isExcluded_iff h.exclusions]
  have hsegments : ∀ region, region ∈ r.libraries.flatMap (·.2) ↔
      ∃ name, region ∈ (o.libraries name).getD [] := fun region => by
    simp only [mem_segments_iff h.names, h.libraries]
  simp only [List.mem_append, hsegments, Owners.Covers, Owners.segments]
  grind

/-- A library takes what it owns out of the list, and nothing else. -/
theorem Balanced.unregistered (h : r.Balanced o) (name : String) :
    r.exclusions.regions.Perm
      (Exclusions.kept (o.segments name) ++ (r.unregisterLibrary name).2.exclusions.regions) := by
  have hgone := (h.unregisterLibrary name).exclusions
  have hperm := segments_perm h.names name
  rw [libraries_unregisterLibrary] at hgone
  rw [h.libraries] at hperm
  refine h.exclusions.trans (.trans ?_ (hgone.append_left _).symm)
  rw [← Exclusions.kept_append]
  exact ((hperm.append_left _).trans (List.perm_append_comm_assoc ..)).filter _

theorem Balanced.registered (h : r.Balanced o) (name : String) (segments : List Region) :
    (Exclusions.kept segments ++ r.exclusions.regions).Perm
      (Exclusions.kept (o.segments name) ++ (r.registerLibrary name segments).exclusions.regions) := by
  have hadded := Exclusions.regions_foldl_exclude (r.unregisterLibrary name).2.exclusions segments
  calc Exclusions.kept segments ++ r.exclusions.regions
    _ |>.Perm (Exclusions.kept segments ++ (Exclusions.kept (o.segments name) ++
        (r.unregisterLibrary name).2.exclusions.regions)) := (h.unregistered name).append_left _
    _ |>.Perm (Exclusions.kept (o.segments name) ++ (Exclusions.kept segments ++
        (r.unregisterLibrary name).2.exclusions.regions)) := List.perm_append_comm_assoc ..
    _ |>.Perm (Exclusions.kept (o.segments name) ++
        (r.registerLibrary name segments).exclusions.regions) := hadded.symm.append_left _

theorem Balanced.fst_lift (h : r.Balanced o) (hregion : region ∈ o.manual)
    (hempty : region.isEmpty = false) : (r.lift region).1 = true := by
  refine List.contains_iff_mem.mpr (h.exclusions.mem_iff.mpr (List.mem_filter.mpr ⟨?_, ?_⟩))
  · exact List.mem_append_left _ hregion
  · simp [hempty]

/-- The exclusions are a multiset that is owned by those who made them. After any run the list is sorted
by start and has every region that is not empty as often as it was excluded by hand and not lifted
since, and is a segment of a library that is registered. So whoever excluded a region can lift it; a
library that goes or is replaced takes out exactly its own segments; and an address is excluded as long
as somebody else covers it. -/
theorem Run.exclusions_owned (h : Run r o) :
    r.exclusions.regions.Pairwise (fun region other => region.start ≤ other.start) ∧
    r.names.Nodup ∧ (∀ name, r.segments? name = o.libraries name) ∧
    r.exclusions.regions.Perm
      ((o.manual ++ r.libraries.flatMap (·.2)).filter fun region => !region.isEmpty) ∧
    (∀ region ∈ o.manual, region.isEmpty = false → (r.lift region).1 = true) ∧
    (∀ name, r.exclusions.regions.Perm
      (Exclusions.kept (o.segments name) ++ (r.unregisterLibrary name).2.exclusions.regions)) ∧
    (∀ name segments, (Exclusions.kept segments ++ r.exclusions.regions).Perm
      (Exclusions.kept (o.segments name) ++ (r.registerLibrary name segments).exclusions.regions)) ∧
    (∀ address, r.exclusions.isExcluded address = true ↔ o.Covers address) ∧
    ∀ name address, ((∃ region ∈ o.manual, region.contains address = true) ∨
        ∃ other ≠ name, ∃ segment ∈ o.segments other, segment.contains address = true) →
      (r.unregisterLibrary name).2.exclusions.isExcluded address = true ∧
      ∀ segments, (r.registerLibrary name segments).exclusions.isExcluded address = true := by
  have hr := h.balanced
  refine ⟨hr.sorted, hr.names, hr.libraries, hr.exclusions, fun _ => hr.fst_lift, hr.unregistered,
    hr.registered, fun _ => hr.isExcluded_iff, fun name address hothers => ?_⟩
  have hcovers : ∀ segments?, Owners.Covers { o with
      libraries := Function.update o.libraries name segments? } address := by
    intro segments?
    refine hothers.imp_right fun ⟨other, hne, segment, hsegment, hcontains⟩ => ?_
    refine ⟨other, segment, ?_, hcontains⟩
    simpa [Owners.segments, Function.update_of_ne hne] using hsegment
  exact ⟨(hr.unregisterLibrary name).isExcluded_iff.mpr (hcovers none),
    fun segments => (hr.registerLibrary name segments).isExcluded_iff.mpr (hcovers (some segments))⟩

/-- A region is excluded by hand and twice by a library, beside one that overlaps it and an empty one;
another library shares it; then the first library is registered anew without it. Two copies are left,
and the addresses of the region stay excluded when the other library goes. -/
theorem Run.exclusions_owned_shared :
    ∃ r o, Run r o ∧
      r = (((Registry.empty.exclude ⟨0, 16⟩).registerLibrary "first" [⟨0, 16⟩, ⟨8, 32⟩, ⟨4, 4⟩, ⟨0, 16⟩]
        ).registerLibrary "second" [⟨0, 16⟩]).registerLibrary "first" [⟨8, 32⟩] ∧
      r.exclusions.regions = [⟨0, 16⟩, ⟨0, 16⟩, ⟨8, 32⟩] ∧
      (r.unregisterLibrary "second").2.exclusions.isExcluded 4 = true ∧
      ⟨0, 16⟩ ∈ o.manual ∧ (r.lift ⟨0, 16⟩).1 = true := by
  have h := (((Run.empty.exclude ⟨0, 16⟩).registerLibrary "first"
    [⟨0, 16⟩, ⟨8, 32⟩, ⟨4, 4⟩, ⟨0, 16⟩]).registerLibrary "second" [⟨0, 16⟩]).registerLibrary "first"
      [⟨8, 32⟩]
  have hmanual : (⟨0, 16⟩ : Region) ∈ [(⟨0, 16⟩ : Region)] := List.mem_singleton_self _
  obtain ⟨-, -, -, -, hlift, -, -, -, hstays⟩ := Run.exclusions_owned h
  exact ⟨_, _, h, rfl, by decide, (hstays "second" 4 (.inl ⟨_, hmanual, rfl⟩)).1, hmanual,
    hlift _ hmanual rfl⟩

end Registry

end Substrate
