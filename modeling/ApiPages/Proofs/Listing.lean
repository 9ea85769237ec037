import ApiPages.Proofs.Loading

/-!
# The flat listing

The listing of a loaded tree numbers its nodes in pre-order and writes numbers in the place of
nesting. Nothing is lost by that: the tree is found again along the numbers.

Results:

* `Node.map_id_listing`, `Node.map_info_listing`: numbers are positions, and the order is pre-order.
* `Node.childrenIn_listing`: the members that an entry lists are the entries that name it as their
  parent, in order.
* `Entry.rebuild_listing`: following the members from the first entry gives the declarations back.
-/

namespace ApiPages

/-- The numbers of the entries whose parent has number `q`, in order. -/
def Entry.childrenIn (es : List Entry) (q : Nat) : List Nat :=
  (es.filter fun e => e.parent = some q).map Entry.id

theorem Entry.childrenIn_append (es fs : List Entry) (q : Nat) :
    childrenIn (es ++ fs) q = childrenIn es q ++ childrenIn fs q := by
  simp [childrenIn]

theorem Entry.childrenIn_eq_nil {es : List Entry} {q : Nat} (h : ∀ e ∈ es, e.parent ≠ some q) :
    childrenIn es q = [] := by
  simpa [childrenIn] using h

namespace Node

/-! ## Numbers and order -/

mutual

theorem length_listing (parent : Option Nat) (start : Nat) :
    (t : Node) → (t.listing parent start).length = t.size
  | .mk i cs => by rw [listing, size, List.length_cons, length_listingAll]

theorem length_listingAll (parent start : Nat) :
    (cs : List Node) → (listingAll parent start cs).length = sizeAll cs
  | [] => rfl
  | c :: cs => by
    rw [listingAll, sizeAll, List.length_append, length_listing, length_listingAll]

end

mutual

/-- The numbers are the positions. -/
theorem map_id_listing (parent : Option Nat) (start : Nat) :
    (t : Node) → (t.listing parent start).map Entry.id = List.range' start t.size
  | .mk i cs => by
    rw [listing, size, List.map_cons, map_id_listingAll, List.range'_succ]

theorem map_id_listingAll (parent start : Nat) :
    (cs : List Node) → (listingAll parent start cs).map Entry.id = List.range' start (sizeAll cs)
  | [] => rfl
  | c :: cs => by
    rw [listingAll, sizeAll, List.map_append, map_id_listing, map_id_listingAll,
      List.range'_append_1]

end

mutual

/-- The order is pre-order. -/
theorem map_info_listing (parent : Option Nat) (start : Nat) :
    (t : Node) → (t.listing parent start).map Entry.info = t.preorder.map Node.info
  | .mk i cs => by
    rw [listing, preorder, List.map_cons, List.map_cons, map_info_listingAll]
    rfl

theorem map_info_listingAll (parent start : Nat) :
    (cs : List Node) →
      (listingAll parent start cs).map Entry.info = (preorderAll cs).map Node.info
  | [] => rfl
  | c :: cs => by
    rw [listingAll, preorderAll, List.map_append, List.map_append, map_info_listing,
      map_info_listingAll]

end

theorem id_of_mem_listing {parent : Option Nat} {start : Nat} {t : Node} {e : Entry}
    (he : e ∈ t.listing parent start) : start ≤ e.id ∧ e.id < start + t.size := by
  have : e.id ∈ (t.listing parent start).map Entry.id := List.mem_map_of_mem he
  rw [map_id_listing, List.mem_range'_1] at this
  exact this

theorem id_of_mem_listingAll {parent start : Nat} {cs : List Node} {e : Entry}
    (he : e ∈ listingAll parent start cs) : start ≤ e.id ∧ e.id < start + sizeAll cs := by
  have : e.id ∈ (listingAll parent start cs).map Entry.id := List.mem_map_of_mem he
  rw [map_id_listingAll, List.mem_range'_1] at this
  exact this

/-! ## Parents and members -/

mutual

/-- Parents come before their members. -/
theorem parent_of_mem_listing (parent : Option Nat) (start : Nat) :
    (t : Node) → ∀ e ∈ t.listing parent start,
      (e.id = start ∧ e.parent = parent) ∨ ∃ q, e.parent = some q ∧ start ≤ q ∧ q < e.id
  | .mk i cs => by
    intro e he
    rw [listing, List.mem_cons] at he
    rcases he with rfl | he
    · exact Or.inl ⟨rfl, rfl⟩
    · right
      have hid := id_of_mem_listingAll he
      rcases parent_of_mem_listingAll start (start + 1) cs e he with h | ⟨q, h, h1, h2⟩
      · exact ⟨start, h, by omega, by omega⟩
      · exact ⟨q, h, by omega, h2⟩

theorem parent_of_mem_listingAll (parent start : Nat) :
    (cs : List Node) → ∀ e ∈ listingAll parent start cs,
      e.parent = some parent ∨ ∃ q, e.parent = some q ∧ start ≤ q ∧ q < e.id
  | [] => by intro e he; cases he
  | c :: cs => by
    intro e he
    rw [listingAll, List.mem_append] at he
    rcases he with he | he
    · rcases parent_of_mem_listing (some parent) start c e he with ⟨-, h⟩ | h
      · exact Or.inl h
      · exact Or.inr h
    · rcases parent_of_mem_listingAll parent (start + c.size) cs e he with h | ⟨q, h, h1, h2⟩
      · exact Or.inl h
      · exact Or.inr ⟨q, h, by omega, h2⟩

end

/-- Trees listed elsewhere have no parent among the numbers of a tree. -/
theorem childrenIn_listing_eq_nil {parent : Option Nat} {start q : Nat} {t : Node}
    (hparent : parent ≠ some q) (hq : q < start ∨ start + t.size ≤ q) :
    Entry.childrenIn (t.listing parent start) q = [] := by
  apply Entry.childrenIn_eq_nil
  intro e he heq
  have hid := id_of_mem_listing he
  rcases parent_of_mem_listing parent start t e he with ⟨-, h⟩ | ⟨r, h, h1, h2⟩
  · exact hparent (h.symm.trans heq)
  · cases h.symm.trans heq
    omega

theorem childrenIn_listingAll_eq_nil {parent start q : Nat} {cs : List Node}
    (hparent : parent ≠ q) (hq : q < start ∨ start + sizeAll cs ≤ q) :
    Entry.childrenIn (listingAll parent start cs) q = [] := by
  apply Entry.childrenIn_eq_nil
  intro e he heq
  have hid := id_of_mem_listingAll he
  rcases parent_of_mem_listingAll parent start cs e he with h | ⟨r, h, h1, h2⟩
  · cases h.symm.trans heq
    exact hparent rfl
  · cases h.symm.trans heq
    omega

theorem childrenIn_listingAll_self {q start : Nat} (hq : q < start) (cs : List Node) :
    Entry.childrenIn (listingAll q start cs) q = positions start cs := by
  induction cs generalizing start with
  | nil => rfl
  | cons c cs ih =>
    obtain ⟨i, inner⟩ := c
    rw [listingAll, positions, Entry.childrenIn_append, ih (by omega), listing]
    have hinner : Entry.childrenIn (listingAll start (start + 1) inner) q = [] :=
      childrenIn_listingAll_eq_nil (by omega) (by omega)
    simp only [Entry.childrenIn] at hinner ⊢
    simp [hinner]

mutual

/-- The members of an entry are the entries whose parent it is, in the order of the listing. -/
theorem childrenIn_listing (parent : Option Nat) (start : Nat)
    (hparent : ∀ q, parent = some q → q < start) :
    (t : Node) → ∀ e ∈ t.listing parent start,
      Entry.childrenIn (t.listing parent start) e.id = e.children
  | .mk i cs => by
    intro e he
    rw [listing] at he ⊢
    have htop : ∀ q, start ≤ q →
        Entry.childrenIn (⟨start, parent, positions (start + 1) cs, i⟩ ::
          listingAll start (start + 1) cs) q =
        Entry.childrenIn (listingAll start (start + 1) cs) q := by
      intro q hq
      have : parent ≠ some q := fun h => by have := hparent q h; omega
      simp [Entry.childrenIn, this]
    rcases List.mem_cons.mp he with rfl | he
    · rw [htop _ (Nat.le_refl _), childrenIn_listingAll_self (by omega)]
    · have hid := id_of_mem_listingAll he
      rw [htop _ (by omega)]
      exact childrenIn_listingAll start (start + 1) (by omega) cs e he

theorem childrenIn_listingAll (parent start : Nat) (hparent : parent < start) :
    (cs : List Node) → ∀ e ∈ listingAll parent start cs,
      Entry.childrenIn (listingAll parent start cs) e.id = e.children
  | [] => by intro e he; cases he
  | c :: cs => by
    intro e he
    rw [listingAll] at he ⊢
    rw [Entry.childrenIn_append]
    rcases List.mem_append.mp he with he | he
    · have hid := id_of_mem_listing he
      rw [childrenIn_listingAll_eq_nil (by omega) (by omega), List.append_nil]
      exact childrenIn_listing (some parent) start (fun q h => by cases h; exact hparent) c e he
    · have hid := id_of_mem_listingAll he
      rw [childrenIn_listing_eq_nil (by simp; omega) (by omega), List.nil_append]
      exact childrenIn_listingAll parent (start + c.size) (by omega) cs e he

end

end Node

/-! ## Finding the tree again -/

/-- The fields of a declaration that its kind keeps, with the file that it is in. -/
def DeclFields.kept (file : Option String) (f : DeclFields) : DeclFields :=
  let bare : DeclFields :=
    { f with
      filepath := file, bases := [], decorators := [], parameters := [], returns := none
      inherited := false, typeExpr := none, value := none, target := none, wildcard := false }
  match f.kind with
  | .module => bare
  | .classType => { bare with bases := f.bases, decorators := f.decorators }
  | .function =>
    { bare with
      parameters := f.parameters, returns := f.returns, decorators := f.decorators
      inherited := f.inherited }
  | .attr => { bare with typeExpr := f.typeExpr, value := f.value, inherited := f.inherited }
  | .reexport => { bare with target := f.target, wildcard := f.wildcard }

/-- The fields of a declaration with the data of a node. -/
def NodeInfo.fields (i : NodeInfo) : DeclFields :=
  let bare : DeclFields :=
    { kind := .module, name := i.name, docstring := i.docstring, filepath := i.filepath
      lineno := i.lineno, endlineno := i.endlineno, lines := i.lines, bases := []
      decorators := [], parameters := [], returns := none, inherited := false, typeExpr := none
      value := none, target := none, wildcard := false }
  match i.kind with
  | .module _ => bare
  | .classType bases decorators => { bare with kind := .classType, bases, decorators }
  | .function parameters returns decorators inherited =>
    { bare with kind := .function, parameters, returns, decorators, inherited }
  | .attr typeExpr value inherited => { bare with kind := .attr, typeExpr, value, inherited }
  | .reexport target wildcard => { bare with kind := .reexport, target, wildcard }

theorem fields_infoOf (path : String) (file : Option String) (f : DeclFields) :
    (Node.infoOf path file f).fields = f.kept file := by
  obtain ⟨kind, _⟩ := f
  cases kind <;> rfl

namespace Declaration

mutual

/-- The tree with the fields that are kept, in a file. -/
def kept (file : Option String) : Declaration → Declaration
  | .mk f ms => .mk (f.kept file) (keptAll file ms)

/-- The members of a declaration in a file, with the fields that are kept. -/
def keptAll (file : Option String) : List Declaration → List Declaration
  | [] => []
  | .mk f ms :: rest => kept (f.filepath.or file) (.mk f ms) :: keptAll file rest

end

end Declaration

namespace Entry

/-- The declaration of the entry at a position, with those of the members that it lists. Nothing if
one is missing or they nest deeper than `levels`. -/
def rebuild (es : List Entry) : (levels : Nat) → (position : Nat) → Option Declaration
  | 0, _ => none
  | levels + 1, position => do
    let e ← es[position]?
    let ms ← e.children.mapM (rebuild es levels)
    return .mk e.info.fields ms

mutual

/-- Where the listing of a declaration stands among other entries, the declaration is rebuilt. -/
theorem rebuild_listing (path : String) (file : Option String) (parent : Option Nat)
    (before after : List Entry) (levels : Nat) :
    (d : Declaration) → (Node.build path file d).size ≤ levels →
      rebuild (before ++ (Node.build path file d).listing parent before.length ++ after) levels
        before.length = some (d.kept file)
  | .mk f ms => by
    intro hlevels
    rw [Node.build, Node.size] at hlevels
    obtain ⟨n, rfl⟩ : ∃ n, levels = n + 1 := ⟨levels - 1, by omega⟩
    have hmembers := rebuild_listingAll path file (before ++
      [⟨before.length, parent, Node.positions (before.length + 1) (Node.buildAll path file ms),
        Node.infoOf path file f⟩]) before.length after n ms (by omega)
    rw [Node.build, Node.listing, rebuild]
    simp only [List.append_assoc, List.cons_append, List.nil_append, List.length_append,
      List.length_cons, List.length_nil] at hmembers ⊢
    simp [hmembers, fields_infoOf, Declaration.kept]

theorem rebuild_listingAll (path : String) (file : Option String) (before : List Entry)
    (parent : Nat) (after : List Entry) (levels : Nat) :
    (ms : List Declaration) → Node.sizeAll (Node.buildAll path file ms) ≤ levels →
      (Node.positions before.length (Node.buildAll path file ms)).mapM
        (rebuild (before ++ Node.listingAll parent before.length (Node.buildAll path file ms)
          ++ after) levels) = some (Declaration.keptAll file ms)
  | [] => by intro _; rfl
  | .mk f ms :: rest => by
    intro hlevels
    rw [Node.buildAll, Node.sizeAll] at hlevels
    rw [Node.buildAll, Node.positions, Node.listingAll, Declaration.keptAll]
    have htop := rebuild_listing (DottedPath.child path f.name) (f.filepath.or file) (some parent)
      before (Node.listingAll parent (before.length + (Node.build (DottedPath.child path f.name)
        (f.filepath.or file) (.mk f ms)).size) (Node.buildAll path file rest) ++ after) levels
      (.mk f ms) (by omega)
    have hrest := rebuild_listingAll path file (before ++
      (Node.build (DottedPath.child path f.name) (f.filepath.or file) (.mk f ms)).listing
        (some parent) before.length) parent after levels rest (by omega)
    simp only [List.length_append, Node.length_listing, List.append_assoc] at htop hrest ⊢
    simp [htop, hrest]

end

end Entry

end ApiPages
