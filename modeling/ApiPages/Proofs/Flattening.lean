import ApiPages.Proofs.WorkList

/-!
# Loading is a faithful flattening

Loading a tree of declarations either lists it completely or reports its first fault.

* `Snapshot.Flattens`: the flat listing of a snapshot is that of a tree of declarations.
* `Declaration.FirstFault`: the fault of the first placement in pre-order that is at fault.
* `Snapshot.load_flattens_or_reports`: when loading succeeds, what it gives, and what it reports
  otherwise; loading with a work list does the same.
-/

namespace ApiPages

/-- The listing of a snapshot is that of the declarations `d`. -/
structure Snapshot.Flattens (s : Snapshot) (d : Declaration) : Prop where
  /-- The order is pre-order; every node has the path and the file of its place and the data of its
  kind. -/
  infos : s.entries.map Entry.info = d.placements.map Placement.info
  /-- Only the file that a module names itself makes it a package. -/
  packages : ∀ p ∈ d.placements, p.info.kind = .module true ↔
    p.fields.kind = .module ∧
      p.fields.filepath.bind UnixPath.fileName = some Node.packageFile.toList
  /-- Numbers are positions. -/
  numbers : s.entries.map Entry.id = List.range s.entries.length
  /-- All but the first have a parent, which comes before them. -/
  parents : ∀ e ∈ s.entries, (e.parent = none ↔ e.id = 0) ∧ ∀ q, e.parent = some q → q < e.id
  /-- The members of an entry are the entries whose parent it is, in order. -/
  members : ∀ e ∈ s.entries, e.children = Entry.childrenIn s.entries e.id
  /-- A path leads to the entry that has it. -/
  byPath : ∀ path i, s.numberOf? path = some i ↔
    ∃ e, s.entries[i]? = some e ∧ e.info.path = path
  /-- Along the members, the first entry leads to the whole tree. -/
  rebuilt : Entry.rebuild s.entries s.entries.length 0 = some (d.kept d.fields.filepath)

/-- The fault is that of the first placement whose name is not fit or whose path an earlier one
has. -/
def Declaration.FirstFault (d : Declaration) (fault : LoadFault) : Prop :=
  ∃ before p after, d.placements = before ++ p :: after ∧ (∀ q ∈ before, q.NameFits) ∧
    (before.map Placement.path).Nodup ∧
    ((¬ p.NameFits ∧ fault = .invalidName p.fields.name) ∨
      (p.NameFits ∧ p.path ∈ before.map Placement.path ∧ fault = .duplicatePath p.path))

namespace Snapshot

theorem map_id_entries (s : Snapshot) : s.entries.map Entry.id = List.range s.entries.length := by
  rw [entries, Node.map_id_listing, Node.length_listing, List.range_eq_range']

theorem getElem?_entries_id {s : Snapshot} {e : Entry} (he : e ∈ s.entries) :
    s.entries[e.id]? = some e := by
  obtain ⟨i, hi, rfl⟩ := List.getElem_of_mem he
  have hid : s.entries[i].id = i := by
    have h := congrArg (fun l => l[i]?) (map_id_entries s)
    simpa [hi] using h
  rw [hid, List.getElem?_eq_getElem hi]

theorem id_of_getElem?_entries {s : Snapshot} {i : Nat} {e : Entry}
    (he : s.entries[i]? = some e) : e.id = i := by
  obtain ⟨hi, rfl⟩ := List.getElem?_eq_some_iff.mp he
  have h := congrArg (fun l => l[i]?) (map_id_entries s)
  simpa [hi] using h

theorem numberOf?_eq_some_iff {s : Snapshot} (hs : s.Sound) (path : String) (i : Nat) :
    s.numberOf? path = some i ↔ ∃ e, s.entries[i]? = some e ∧ e.info.path = path := by
  have hnodup : (s.entries.map fun e => e.info.path).Nodup := by
    have := congrArg (List.map NodeInfo.path) (Node.map_info_listing none 0 s.root)
    rw [List.map_map, List.map_map] at this
    have heq : s.entries.map (fun e => e.info.path) = s.nodes.map Node.path := this
    rw [heq]
    exact hs.paths_nodup
  rw [numberOf?, Option.map_eq_some_iff]
  constructor
  · rintro ⟨e, hfind, rfl⟩
    have hmem := List.mem_of_find?_eq_some hfind
    exact ⟨e, getElem?_entries_id hmem, by simpa using List.find?_some hfind⟩
  · rintro ⟨e, he, rfl⟩
    have hmem := List.mem_of_getElem? he
    obtain ⟨e', hfind⟩ : ∃ e', (s.entries.find? fun a => a.info.path == e.info.path) = some e' := by
      rw [← Option.isSome_iff_exists, List.find?_isSome]
      exact ⟨e, hmem, by simp⟩
    have hpath : e'.info.path = e.info.path := by simpa using List.find?_some hfind
    have heq : e' = e :=
      List.inj_on_of_nodup_map hnodup (List.mem_of_find?_eq_some hfind) hmem hpath
    exact ⟨e', hfind, by rw [heq]; exact id_of_getElem?_entries he⟩

theorem isPackage_kindOf_iff (f : DeclFields) :
    Node.kindOf f = .module true ↔
      f.kind = .module ∧ f.filepath.bind UnixPath.fileName = some Node.packageFile.toList := by
  rw [Node.kindOf]
  cases f.kind <;> simp

theorem Flattens.of_load {d : Declaration} {s : Snapshot} (h : load d = .ok s) :
    s.Flattens d := by
  have hs : s.Sound := Sound.of_load h
  obtain ⟨-, -, -, rfl⟩ := (load_eq_ok_iff d s).mp h
  refine ⟨?_, ?_, map_id_entries _, ?_, ?_, numberOf?_eq_some_iff hs, ?_⟩
  · rw [entries, Node.map_info_listing, map_info_preorder]
  · intro p _
    exact isPackage_kindOf_iff p.fields
  · intro e he
    rcases Node.parent_of_mem_listing none 0 _ e he with ⟨hid, hp⟩ | ⟨q, hp, -, hq⟩
    · simp [hid, hp]
    · simp only [hp, reduceCtorEq, false_iff, Option.some.injEq, forall_eq']
      omega
  · intro e he
    exact (Node.childrenIn_listing none 0 (fun q hq => by cases hq) _ e he).symm
  · have := Entry.rebuild_listing d.fields.name d.fields.filepath none [] [] _ d (Nat.le_refl _)
    rw [List.nil_append, List.append_nil] at this
    rw [entries, Node.length_listing]
    exact this

/-- **Loading.** It succeeds exactly on modules with fit names and unique paths; it then lists the
tree without losing anything, and otherwise reports the first fault. Loading with a work list has
the same outcome. -/
theorem load_flattens_or_reports (d : Declaration) :
    ((∃ s, load d = .ok s) ↔
      d.fields.kind = .module ∧ (∀ p ∈ d.placements, p.NameFits) ∧
        (d.placements.map Placement.path).Nodup) ∧
    (∀ s, load d = .ok s → s.Flattens d) ∧
    (∀ fault, load d = .error fault →
      if d.fields.kind = .module then d.FirstFault fault else fault = .rootNotModule) ∧
    Arena.load d = (load d).map fun s => Arena.ofEntries s.entries := by
  refine ⟨?_, fun s h => Flattens.of_load h, ?_, Arena.load_eq d⟩
  · simp only [load_eq_ok_iff]
    constructor
    · rintro ⟨s, hkind, hnames, hpaths, -⟩
      exact ⟨hkind, hnames, hpaths⟩
    · rintro ⟨hkind, hnames, hpaths⟩
      exact ⟨_, hkind, hnames, hpaths, rfl⟩
  · intro fault h
    split
    · next hkind => exact exists_of_load_eq_error hkind h
    · next hkind =>
      rw [load_eq_error_of_not_module hkind] at h
      cases h
      rfl

end Snapshot

end ApiPages
