import ApiPages.Proofs.DictLaws
import ApiPages.Proofs.Listing

/-!
# Loading with a work list

A tree of any depth can be loaded without recursion: declarations wait in a list together with the
number of their parent, the next one is entered, its members are put in front of the list, and its
number is added to the members of its parent. The entries of a parent are thus completed while its
members and everything inside them are entered.

`Arena.load_eq`: loading with a work list has the outcome of `Snapshot.load`, faults included, and
builds the flat listing. The proof follows one declaration with everything in it
(`Arena.loadAll_declaration`), the entries around it being arbitrary.
-/

namespace ApiPages

/-- The entries made so far, and their numbers by path. -/
structure Arena where
  entries : List Entry
  numbers : Dict Nat

namespace Arena

/-- Adds a number to the members of its parent. -/
def adopt (parent : Option Nat) (number : Nat) (es : List Entry) : List Entry :=
  match parent with
  | some q => es.modify q fun e => { e with children := e.children ++ [number] }
  | none => es

/-- The path of a declaration below the entry with a number. -/
def pathBelow (es : List Entry) (parent : Option Nat) (f : DeclFields) : String :=
  match parent.bind fun q => es[q]? with
  | some e => DottedPath.child e.info.path f.name
  | none => f.name

/-- The file of a declaration below the entry with a number. -/
def fileBelow (es : List Entry) (parent : Option Nat) (f : DeclFields) : Option String :=
  f.filepath.or ((parent.bind fun q => es[q]?).bind fun e => e.info.filepath)

/-- Enters one declaration. -/
def enter (a : Arena) (parent : Option Nat) (f : DeclFields) : Except LoadFault Arena :=
  let number := a.entries.length
  let path := pathBelow a.entries parent f
  if f.name.isEmpty || (f.name.toList.contains '.' && decide (f.kind ≠ .reexport)) then
    .error (.invalidName f.name)
  else if a.numbers.contains path then .error (.duplicatePath path)
  else
    let entry : Entry :=
      ⟨number, parent, [], Node.infoOf path (fileBelow a.entries parent f) f⟩
    .ok ⟨adopt parent number (a.entries ++ [entry]), a.numbers.insert path number⟩

/-- The members of the entry with a number, as they wait. -/
def membersOf (number : Nat) (ms : List Declaration) : List (Declaration × Option Nat) :=
  ms.map fun m => (m, some number)

/-- The size of what waits. -/
noncomputable def weight : (waiting : List (Declaration × Option Nat)) → Nat
  | [] => 0
  | w :: waiting => sizeOf w.1 + weight waiting

theorem weight_append (waiting more : List (Declaration × Option Nat)) :
    weight (waiting ++ more) = weight waiting + weight more := by
  induction waiting with
  | nil => simp [weight]
  | cons w waiting ih =>
    rw [List.cons_append, weight, weight, ih]
    omega

theorem weight_membersOf_le (number : Nat) (ms : List Declaration) :
    weight (membersOf number ms) ≤ sizeOf ms := by
  induction ms with
  | nil => simp [weight, membersOf]
  | cons m ms ih =>
    simp only [weight, membersOf, List.map_cons, List.cons.sizeOf_spec] at ih ⊢
    omega

/-- Enters the declarations that wait, and what is inside them. -/
def loadAll (a : Arena) : (waiting : List (Declaration × Option Nat)) → Except LoadFault Arena
  | [] => .ok a
  | (.mk f ms, parent) :: waiting =>
    match a.enter parent f with
    | .error fault => .error fault
    | .ok b => b.loadAll (membersOf a.entries.length ms ++ waiting)
termination_by waiting => weight waiting
decreasing_by
  have hmembers := weight_membersOf_le a.entries.length ms
  simp only [weight, weight_append, Declaration.mk.sizeOf_spec] at hmembers ⊢
  omega

/-- Loads a tree of declarations with a work list. -/
def load (d : Declaration) : Except LoadFault Arena :=
  if d.fields.kind ≠ .module then .error .rootNotModule else loadAll ⟨[], ∅⟩ [(d, none)]

/-! ## Arenas of entries -/

/-- The arena of a list of entries. -/
def ofEntries (es : List Entry) : Arena :=
  ⟨es, Dict.ofList (es.map fun e => (e.info.path, e.id))⟩

@[simp] theorem entries_ofEntries (es : List Entry) : (ofEntries es).entries = es := rfl

/-- The paths of a list of entries. -/
def pathsOf (es : List Entry) : List String := es.map fun e => e.info.path

theorem map_adopt {γ : Type} (g : Entry → γ) (hg : ∀ e cs, g { e with children := cs } = g e)
    (parent : Option Nat) (number : Nat) (es : List Entry) :
    (adopt parent number es).map g = es.map g := by
  cases parent with
  | none => rfl
  | some q =>
    rw [adopt]
    induction es generalizing q with
    | nil => simp
    | cons e es ih =>
      cases q with
      | zero => simp [hg]
      | succ q => simp [ih]

theorem length_adopt (parent : Option Nat) (number : Nat) (es : List Entry) :
    (adopt parent number es).length = es.length := by
  have := congrArg List.length (map_adopt (fun _ => ()) (fun _ _ => rfl) parent number es)
  simpa using this

theorem adopt_append {parent : Option Nat} {es : List Entry}
    (hparent : ∀ q, parent = some q → q < es.length) (number : Nat) (fs : List Entry) :
    adopt parent number (es ++ fs) = adopt parent number es ++ fs := by
  cases parent with
  | none => rfl
  | some q =>
    have hq := hparent q rfl
    simp only [adopt]
    clear hparent
    induction es generalizing q with
    | nil => simp at hq
    | cons e es ih =>
      cases q with
      | zero => simp
      | succ q => simp [ih q (by simpa using hq)]

theorem adopt_length (es fs : List Entry) (e : Entry) (number : Nat) :
    adopt (some es.length) number (es ++ e :: fs) =
      es ++ { e with children := e.children ++ [number] } :: fs := by
  rw [adopt]
  induction es with
  | nil => simp
  | cons d es ih => simpa using ih

theorem contains_ofEntries (es : List Entry) (path : String) :
    (ofEntries es).numbers.contains path = decide (path ∈ pathsOf es) := by
  rw [Bool.eq_iff_iff, ofEntries, Dict.contains_ofList_iff, List.map_map, decide_eq_true_eq]
  rfl

theorem ofEntries_adopt (es : List Entry) (parent : Option Nat) (number : Nat) (e : Entry)
    (he : e.id = number) :
    ofEntries (adopt parent number (es ++ [e])) =
      ⟨adopt parent number (es ++ [e]), (ofEntries es).numbers.insert e.info.path number⟩ := by
  have hmap := map_adopt (fun e => (e.info.path, e.id)) (fun _ _ => rfl) parent number (es ++ [e])
  rw [ofEntries, hmap, List.map_append, ← he]
  simp [ofEntries, Dict.ofList, Dict.insertAll, List.foldl_append]

/-! ## One declaration with everything in it -/

/-- The outcome `r`, unless there is a fault. -/
def unlessFault (fault? : Option LoadFault) (r : Except LoadFault Arena) : Except LoadFault Arena :=
  match fault? with
  | some fault => .error fault
  | none => r

theorem unlessFault_or (x y : Option LoadFault) (r : Except LoadFault Arena) :
    unlessFault (x.or y) r = unlessFault x (unlessFault y r) := by
  cases x <;> rfl

/-- Entering a declaration looks at its name and its path as the search for faults does. -/
theorem loadAll_cons (es : List Entry) (parent : Option Nat) (f : DeclFields)
    (ms : List Declaration) (waiting : List (Declaration × Option Nat)) (n : Node)
    (hn : n.info = Node.infoOf (pathBelow es parent f) (fileBelow es parent f) f) :
    (ofEntries es).loadAll ((.mk f ms, parent) :: waiting) =
      unlessFault (Snapshot.firstFault (pathsOf es) [n])
        ((ofEntries (adopt parent es.length (es ++ [⟨es.length, parent, [], n.info⟩]))).loadAll
          (membersOf es.length ms ++ waiting)) := by
  have hname : n.name = f.name := by rw [Node.name, hn]; rfl
  have hpath : n.path = pathBelow es parent f := by rw [Node.path, hn]; rfl
  have hinfo : Node.infoOf n.path (fileBelow es parent f) f = n.info := by rw [hpath, hn]
  have hinfoPath : n.info.path = n.path := rfl
  have hallowed : (f.name.isEmpty || (f.name.toList.contains '.' &&
      decide (f.kind ≠ .reexport))) = !Snapshot.nameAllowed n := by
    rw [Snapshot.nameAllowed_eq hn]
    cases f.name.isEmpty <;> cases f.name.toList.contains '.' <;>
      by_cases h : f.kind = .reexport <;> simp [h]
  rw [loadAll, enter, hallowed, contains_ofEntries]
  simp only [entries_ofEntries, Snapshot.firstFault, ofEntries_adopt, ← hpath, hinfo, hinfoPath]
  by_cases h1 : Snapshot.nameAllowed n = true
  · by_cases h2 : n.path ∈ pathsOf es
    · simp [h1, h2, unlessFault]
    · simp [h1, h2, unlessFault]
  · simp [h1, hname, unlessFault]

theorem pathsOf_adopt (parent : Option Nat) (number : Nat) (es : List Entry) :
    pathsOf (adopt parent number es) = pathsOf es :=
  map_adopt (fun e => e.info.path) (fun _ _ => rfl) parent number es

mutual

/-- A declaration is entered with everything in it before what waits behind it. -/
theorem loadAll_declaration (es : List Entry) (parent : Option Nat)
    (hparent : ∀ q, parent = some q → q < es.length)
    (waiting : List (Declaration × Option Nat)) :
    (d : Declaration) →
      let n := Node.build (pathBelow es parent d.fields) (fileBelow es parent d.fields) d
      (ofEntries es).loadAll ((d, parent) :: waiting) =
        unlessFault (Snapshot.firstFault (pathsOf es) n.preorder)
          ((ofEntries (adopt parent es.length es ++ n.listing parent es.length)).loadAll waiting)
  | .mk f ms => by
    intro n
    obtain ⟨i, hi⟩ : ∃ i, i = Node.infoOf (pathBelow es parent f) (fileBelow es parent f) f :=
      ⟨_, rfl⟩
    have hn : n = .mk i (Node.buildAll i.path i.filepath ms) := by
      show Node.build _ _ (.mk f ms) = _
      rw [Node.build, hi]
      rfl
    have htop := loadAll_cons es parent f ms waiting n (by rw [hn]; exact hi)
    have hmembers := loadAll_members (adopt parent es.length es) ⟨es.length, parent, [], i⟩ []
      waiting ms
    rw [length_adopt] at hmembers
    rw [htop, hn, adopt_append hparent]
    simp only [Node.info_mk] at hmembers ⊢
    have hpaths : pathsOf (adopt parent es.length es ++ [⟨es.length, parent, [], i⟩]) =
        pathsOf es ++ [n].map Node.path := by
      rw [hn, pathsOf, List.map_append, ← pathsOf, pathsOf_adopt]
      rfl
    rw [hmembers, ← unlessFault_or, hpaths, ← hn, ← Snapshot.firstFault_append, hn, Node.preorder,
      Node.listing]
    rfl

theorem loadAll_members (before : List Entry) (top : Entry) (done : List Entry)
    (waiting : List (Declaration × Option Nat)) :
    (ms : List Declaration) →
      let ns := Node.buildAll top.info.path top.info.filepath ms
      let start := before.length + (done.length + 1)
      (ofEntries (before ++ top :: done)).loadAll (membersOf before.length ms ++ waiting) =
        unlessFault (Snapshot.firstFault (pathsOf (before ++ top :: done)) (Node.preorderAll ns))
          ((ofEntries (before ++
            { top with children := top.children ++ Node.positions start ns } ::
              (done ++ Node.listingAll before.length start ns))).loadAll waiting)
  | [] => by
    intro ns start
    simp only [ns, Node.buildAll, Node.positions, Node.listingAll, Node.preorderAll,
      List.append_nil]
    rfl
  | .mk f inner :: ms => by
    intro ns start
    have hget : (before ++ top :: done)[before.length]? = some top := by simp
    have hpath : pathBelow (before ++ top :: done) (some before.length) f =
        DottedPath.child top.info.path f.name := by
      simp only [pathBelow, Option.bind_some, hget]
    have hfile : fileBelow (before ++ top :: done) (some before.length) f =
        f.filepath.or top.info.filepath := by
      simp only [fileBelow, Option.bind_some, hget]
    have hfirst := loadAll_declaration (before ++ top :: done) (some before.length)
      (fun q hq => by cases hq; simp) (membersOf before.length ms ++ waiting) (.mk f inner)
    simp only [Declaration.fields, hpath, hfile, adopt_length] at hfirst
    have hstart : (before ++ top :: done).length = start := by simp [start]
    rw [hstart] at hfirst
    obtain ⟨n, hn⟩ : ∃ n, n = Node.build (DottedPath.child top.info.path f.name)
      (f.filepath.or top.info.filepath) (.mk f inner) := ⟨_, rfl⟩
    rw [← hn] at hfirst
    have hrest := loadAll_members before { top with children := top.children ++ [start] }
      (done ++ n.listing (some before.length) start) waiting ms
    have hnext : before.length + ((done ++ n.listing (some before.length) start).length + 1) =
        start + n.size := by
      simp only [List.length_append, Node.length_listing, start]
      omega
    have hpaths : pathsOf (before ++ { top with children := top.children ++ [start] } ::
        (done ++ n.listing (some before.length) start)) =
        pathsOf (before ++ top :: done) ++ n.preorder.map Node.path := by
      have := congrArg (List.map NodeInfo.path) (Node.map_info_listing (some before.length) start n)
      rw [List.map_map, List.map_map] at this
      simp only [pathsOf, List.map_append, List.map_cons, List.append_assoc, List.cons_append]
      exact congrArg (fun l => _ ++ _ :: (_ ++ l)) this
    have hns : ns = n :: Node.buildAll top.info.path top.info.filepath ms := by
      rw [hn]
      rfl
    simp only [hnext, hpaths] at hrest
    rw [List.append_assoc, List.cons_append, hrest, ← unlessFault_or,
      ← Snapshot.firstFault_append] at hfirst
    rw [hns, Node.preorderAll, Node.positions, Node.listingAll]
    simp only [List.append_assoc, List.singleton_append] at hfirst ⊢
    exact hfirst

end

/-! ## Whole trees -/

/-- Loading with a work list has the outcome of loading by recursion and builds the listing. -/
theorem load_eq (d : Declaration) :
    load d = (Snapshot.load d).map fun s => ofEntries s.entries := by
  by_cases hkind : d.fields.kind = .module
  · have hrun := loadAll_declaration [] none (fun q hq => by cases hq) [] d
    have hroot : Node.build (pathBelow [] none d.fields) (fileBelow [] none d.fields) d =
        Node.ofDeclaration d := by
      cases h : d.fields.filepath <;> simp [pathBelow, fileBelow, Node.ofDeclaration, h]
    simp only [hroot] at hrun
    have hempty : (⟨[], ∅⟩ : Arena) = ofEntries [] := rfl
    rw [load, hempty, Snapshot.load]
    simp only [hkind, ne_eq, not_true_eq_false, if_false]
    rw [hrun]
    cases hf : Snapshot.firstFault [] (Node.ofDeclaration d).preorder with
    | some fault => simp [pathsOf, hf, unlessFault, Except.map]
    | none =>
      simp [pathsOf, hf, unlessFault, Except.map, loadAll, adopt, Snapshot.entries]
  · simp [load, Snapshot.load, hkind, Except.map]

end Arena

end ApiPages
