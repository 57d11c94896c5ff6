import CodeAtlas.Proofs.Syntax.Apart
import CodeAtlas.Proofs.Syntax.Topmost
/-!
Where the topmost nodes of a tree stand. A place is told by its address, the way down to it, and the
places of a tree are listed by growing addresses (`pairwise_address_places`), so that none comes
twice. The topmost nodes with a property are those at the places that have it with none above them
that has it (`map_node_filter_places`), and what a search for names finds is told in the same way
(`search_eq_filter_places`). In a tree that is laid out in a text the topmost nodes stand one behind
the other (`IsLaidOut.pairwise_topmost`).
-/
namespace CodeAtlas.Syntax

namespace Cursor

def addressOf (trail : List Crumb) : List Nat :=
  (trail.map fun crumb => crumb.before.length).reverse

/-- The way down to a place. In the order of addresses a place comes behind those above it, and
behind those that a sibling further in front leads to. -/
def address (c : Cursor) : List Nat :=
  addressOf c.trail

def IsTopmost (p : Node → Bool) (c : Cursor) : Prop :=
  p c.node = true ∧ ∀ a ∈ c.ancestors, p a = false

instance (p : Node → Bool) : DecidablePred (IsTopmost p) := fun c =>
  inferInstanceAs (Decidable (p c.node = true ∧ ∀ a ∈ c.ancestors, p a = false))

/-- The node at a place is a name, and above it there is neither a name nor a stop. -/
def IsFound (name stop : Node → Bool) (c : Cursor) : Prop :=
  c.IsTopmost name ∧ ∀ a ∈ c.ancestors, stop a = false

instance (name stop : Node → Bool) : DecidablePred (IsFound name stop) := fun c =>
  inferInstanceAs (Decidable (c.IsTopmost name ∧ ∀ a ∈ c.ancestors, stop a = false))

def IsClear (p : Node → Bool) (c : Cursor) : Prop :=
  ∀ a ∈ c.node :: c.ancestors, p a = false

instance (p : Node → Bool) : DecidablePred (IsClear p) := fun c =>
  inferInstanceAs (Decidable (∀ a ∈ c.node :: c.ancestors, p a = false))

/-- With more stops those names are found that are clear of the new ones. -/
theorem isFound_or_iff {name stop more : Node → Bool} (c : Cursor) :
    (c.IsFound name (fun n => stop n || more n) ∧ (stop c.node || more c.node) = false) ↔
      (c.IsFound name stop ∧ stop c.node = false) ∧ c.IsClear more := by
  simp only [IsFound, IsClear, Bool.or_eq_false_iff, List.forall_mem_cons, imp_and, forall_and]
  constructor
  · rintro ⟨⟨htop, hstops, hmore⟩, hstop, hhere⟩
    exact ⟨⟨⟨htop, hstops⟩, hstop⟩, hhere, hmore⟩
  · rintro ⟨⟨⟨htop, hstops⟩, hstop⟩, hhere, hmore⟩
    exact ⟨⟨htop, hstops, hmore⟩, hstop, hhere⟩

/-- The names that are found and are no stops are the topmost among names and stops, without the
stops. -/
theorem isFound_iff {name stop : Node → Bool} (c : Cursor) :
    c.IsFound name stop ∧ stop c.node = false ↔
      c.IsTopmost (fun n => name n || stop n) ∧ stop c.node = false := by
  refine and_congr_left fun hstop => ?_
  constructor
  · rintro ⟨⟨hname, hnames⟩, hstops⟩
    refine ⟨Bool.or_eq_true_iff.mpr (.inl hname), fun a ha => ?_⟩
    exact Bool.or_eq_false_iff.mpr ⟨hnames a ha, hstops a ha⟩
  · rintro ⟨hfound, habove⟩
    have hneither (a : Node) (ha : a ∈ c.ancestors) := Bool.or_eq_false_iff.mp (habove a ha)
    have hname : name c.node = true := by simpa [hstop] using hfound
    exact ⟨⟨hname, fun a ha => (hneither a ha).1⟩, fun a ha => (hneither a ha).2⟩

theorem addressOf_cons (crumb : Crumb) (trail : List Crumb) :
    addressOf (crumb :: trail) = addressOf trail ++ [crumb.before.length] := by
  rw [addressOf, List.map_cons, List.reverse_cons]
  rfl

end Cursor

namespace Node

/-- Places of a tree: those with a property, each once and in their order. -/
structure Picks (root : Node) (P : Cursor → Prop) (picked : List Cursor) : Prop where
  mem_iff : ∀ c, c ∈ picked ↔ c ∈ root.places ∧ P c
  increasing : picked.Pairwise fun a b => a.address < b.address

section Addresses

theorem lt_of_prefix_concat {way address : List Nat} {i : Nat} (h : way ++ [i] <+: address) :
    way < address := by
  obtain ⟨rest, rfl⟩ := h
  have hlonger : way ++ [] < way ++ i :: rest := List.append_left_lt (List.nil_lt_cons i rest)
  rw [List.append_nil] at hlonger
  rwa [List.append_assoc]

theorem lt_of_prefix_concats {way address address' : List Nat} {i j : Nat} (hij : i < j)
    (h : way ++ [i] <+: address) (h' : way ++ [j] <+: address') : address < address' := by
  obtain ⟨rest, rfl⟩ := h
  obtain ⟨rest', rfl⟩ := h'
  rw [List.append_assoc, List.append_assoc]
  exact List.append_left_lt (List.cons_lt_cons_iff.mpr (.inl hij))

mutual
/-- Every way to a place of a tree begins with the way to the tree. -/
theorem prefix_address (trail : List Crumb) (n : Node) :
    ∀ c ∈ n.placesFrom trail, Cursor.addressOf trail <+: c.address := by
  obtain ⟨label, children⟩ := n
  intro c hc
  rw [placesFrom] at hc
  rcases List.mem_cons.mp hc with rfl | hc
  · exact List.prefix_refl _
  · obtain ⟨i, -, hi⟩ := exists_prefix_address (.mk label children) [] trail children c hc
    exact (List.prefix_append _ _).trans hi

/-- Places among children have the address of the parent and a later index. -/
theorem exists_prefix_address (parent : Node) (before : List Node) (trail : List Crumb)
    (ns : List Node) : ∀ c ∈ placesAmong parent before trail ns,
      ∃ i, before.length ≤ i ∧ Cursor.addressOf trail ++ [i] <+: c.address := by
  cases ns with
  | nil => exact fun c hc => absurd hc List.not_mem_nil
  | cons n after =>
    intro c hc
    rw [placesAmong] at hc
    rcases List.mem_append.mp hc with hc | hc
    · have hway := prefix_address (⟨parent, before, after⟩ :: trail) n c hc
      rw [Cursor.addressOf_cons] at hway
      exact ⟨before.length, Nat.le_refl _, hway⟩
    · obtain ⟨i, hle, hway⟩ := exists_prefix_address parent (n :: before) trail after c hc
      exact ⟨i, Nat.le_of_succ_le hle, hway⟩
end

mutual
theorem pairwise_address_from (trail : List Crumb) (n : Node) :
    (n.placesFrom trail).Pairwise fun a b => a.address < b.address := by
  obtain ⟨label, children⟩ := n
  rw [placesFrom]
  refine List.pairwise_cons.mpr
    ⟨fun c hc => ?_, pairwise_address_among (.mk label children) [] trail children⟩
  obtain ⟨i, -, hway⟩ := exists_prefix_address (.mk label children) [] trail children c hc
  exact lt_of_prefix_concat hway

/-- Among children the addresses ascend. -/
theorem pairwise_address_among (parent : Node) (before : List Node) (trail : List Crumb)
    (ns : List Node) :
    (placesAmong parent before trail ns).Pairwise fun a b => a.address < b.address := by
  cases ns with
  | nil => exact List.Pairwise.nil
  | cons n after =>
    rw [placesAmong]
    refine List.pairwise_append.mpr ⟨pairwise_address_from (⟨parent, before, after⟩ :: trail) n,
      pairwise_address_among parent (n :: before) trail after, fun a ha b hb => ?_⟩
    -- Both ways go down to the parent, and then to an earlier and to a later child.
    have hfirst := prefix_address (⟨parent, before, after⟩ :: trail) n a ha
    rw [Cursor.addressOf_cons] at hfirst
    obtain ⟨i, hlater, hrest⟩ := exists_prefix_address parent (n :: before) trail after b hb
    exact lt_of_prefix_concats (Nat.lt_of_succ_le hlater) hfirst hrest
end

/-- The places of a tree are listed in their order, so that none comes twice. -/
theorem pairwise_address_places (root : Node) :
    root.places.Pairwise fun a b => a.address < b.address :=
  pairwise_address_from [] root

theorem picks_filter (root : Node) (P : Cursor → Prop) [DecidablePred P] :
    root.Picks P (root.places.filter P) where
  mem_iff c := by rw [List.mem_filter, decide_eq_true_iff]
  increasing := root.pairwise_address_places.filter _

end Addresses

section Topmost

variable {p : Node → Bool}

/-- The parent of some trees is above all their places. -/
theorem parent_mem_ancestors {parent : Node} {before ns : List Node} {trail : List Crumb}
    {c : Cursor} (hc : c ∈ placesAmong parent before trail ns) : parent ∈ c.ancestors := by
  have habove := along_subset_above_among parent before trail ns c hc List.mem_cons_self
  rw [← c.map_node_above]
  exact List.mem_map.mpr ⟨_, habove, rfl⟩

-- As long as no node above has the property, the places below are topmost in the whole tree exactly
-- if they are in their own.
mutual
/-- Where nothing above has the property, the topmost places hold the topmost nodes. -/
theorem map_node_filter_from (trail : List Crumb)
    (habove : ∀ a ∈ trail.map Crumb.parent, p a = false) (n : Node) :
    ((n.placesFrom trail).filter fun c => c.IsTopmost p).map Cursor.node = n.topmost p := by
  obtain ⟨label, children⟩ := n
  rw [placesFrom]
  by_cases hroot : p (.mk label children) = true
  · have hhere : Cursor.IsTopmost p ⟨.mk label children, trail⟩ := ⟨hroot, habove⟩
    have hbelow : (placesAmong (.mk label children) [] trail children).filter
        (fun c => c.IsTopmost p) = [] := by
      rw [List.filter_eq_nil_iff]
      intro c hc htop
      have hparent := (of_decide_eq_true htop).2 _ (parent_mem_ancestors hc)
      rw [hroot] at hparent
      cases hparent
    rw [List.filter_cons_of_pos (by simpa using hhere), hbelow, topmost_of_holds hroot]
    rfl
  · have hhere : ¬ Cursor.IsTopmost p ⟨.mk label children, trail⟩ := fun h => hroot h.1
    rw [List.filter_cons_of_neg (by simpa using hhere), topmost_of_not_holds hroot]
    exact map_node_filter_among (.mk label children) [] trail
      (List.forall_mem_cons.mpr ⟨Bool.eq_false_iff.mpr hroot, habove⟩) children

theorem map_node_filter_among (parent : Node) (before : List Node) (trail : List Crumb)
    (habove : ∀ a ∈ parent :: trail.map Crumb.parent, p a = false) (ns : List Node) :
    ((placesAmong parent before trail ns).filter fun c => c.IsTopmost p).map Cursor.node =
      topmosts p ns := by
  cases ns with
  | nil => rfl
  | cons n after =>
    rw [placesAmong, topmosts, List.filter_append, List.map_append,
      map_node_filter_from (⟨parent, before, after⟩ :: trail) habove n,
      map_node_filter_among parent (n :: before) trail habove after]
end

/-- The topmost nodes of a tree are those at its topmost places. -/
theorem map_node_filter_places (root : Node) :
    (root.places.filter fun c => c.IsTopmost p).map Cursor.node = root.topmost p :=
  map_node_filter_from [] (fun _ ha => absurd ha List.not_mem_nil) root

/-- A search for names finds those that are no stops and have neither a name nor a stop above
them. -/
theorem search_eq_filter_places (name stop : Node → Bool) (root : Node) : root.search name stop =
    (root.places.filter fun c => c.IsFound name stop ∧ stop c.node = false).map Cursor.node := by
  have hfound (c : Cursor) (_ : c ∈ root.places) :
      decide (c.IsFound name stop ∧ stop c.node = false) =
        (!stop c.node && decide (c.IsTopmost fun n => name n || stop n)) := by
    rw [Bool.eq_iff_iff, Bool.and_eq_true, Bool.not_eq_true', decide_eq_true_iff,
      decide_eq_true_iff, Cursor.isFound_iff, and_comm]
  rw [search, ← map_node_filter_places, List.filter_map, List.filter_filter,
    List.filter_congr hfound]
  rfl

theorem search_or_eq_filter_places (name stop more : Node → Bool) (root : Node) :
    root.search name (fun n => stop n || more n) =
      ((root.places.filter fun c => c.IsFound name stop ∧ stop c.node = false).filter
        fun c => c.IsClear more).map Cursor.node := by
  have hfound (c : Cursor) (_ : c ∈ root.places) :
      decide (c.IsFound name (fun n => stop n || more n) ∧ (stop c.node || more c.node) = false) =
        (decide (c.IsClear more) && decide (c.IsFound name stop ∧ stop c.node = false)) := by
    rw [Bool.eq_iff_iff, Bool.and_eq_true, decide_eq_true_iff, decide_eq_true_iff,
      decide_eq_true_iff, Cursor.isFound_or_iff, and_comm]
  rw [search_eq_filter_places, List.filter_filter, List.filter_congr hfound]

/-- With more stops a search finds less. -/
theorem search_or_sublist (name stop more : Node → Bool) (root : Node) :
    (root.search name fun n => stop n || more n).Sublist (root.search name stop) := by
  rw [search_or_eq_filter_places, search_eq_filter_places name stop]
  exact List.filter_sublist.map _

/-- A search with more stops finds the same exactly if no name that was found is one of these stops
or stands below one. -/
theorem search_or_eq_iff {name stop more : Node → Bool} {root : Node} :
    root.search name (fun n => stop n || more n) = root.search name stop ↔
      ∀ c ∈ root.places, c.IsFound name stop → stop c.node = false → c.IsClear more := by
  rw [search_or_eq_filter_places, search_eq_filter_places name stop]
  constructor
  · intro h c hc hfound hstop
    have hlength := congrArg List.length h
    rw [List.length_map, List.length_map, List.length_filter_eq_length_iff] at hlength
    exact of_decide_eq_true (hlength c (List.mem_filter.mpr ⟨hc, by simp [hfound, hstop]⟩))
  · intro h
    refine congrArg _ (List.filter_eq_self.mpr fun c hc => ?_)
    obtain ⟨hc, hfound⟩ := List.mem_filter.mp hc
    obtain ⟨hfound, hstop⟩ := of_decide_eq_true hfound
    exact decide_eq_true (h c hc hfound hstop)

/-- If no name is a stop, nothing more has to be said of them. -/
theorem search_eq_filter_found {name stop : Node → Bool}
    (hapart : ∀ n, name n = true → stop n = false) (root : Node) :
    root.search name stop =
      (root.places.filter fun c => c.IsFound name stop).map Cursor.node := by
  have hfound (c : Cursor) (_ : c ∈ root.places) :
      decide (c.IsFound name stop ∧ stop c.node = false) = decide (c.IsFound name stop) :=
    decide_eq_decide.mpr (and_iff_left_of_imp fun h => hapart _ h.1.1)
  rw [search_eq_filter_places, List.filter_congr hfound]

theorem topmost_sublist (p : Node → Bool) (root : Node) :
    (root.topmost p).Sublist root.subtree := by
  rw [← map_node_filter_places, ← map_node_places]
  exact List.filter_sublist.map _

end Topmost

section Text

/-- A tree is laid out in a text: every node covers its children, which follow one another. -/
def IsLaidOut (root : Node) : Prop :=
  ∀ n ∈ root.subtree, (∀ c ∈ n.children, n.start ≤ c.start ∧ c.stop ≤ n.stop) ∧
    n.children.Pairwise fun a b => a.stop ≤ b.start

instance (root : Node) : Decidable root.IsLaidOut :=
  inferInstanceAs (Decidable (∀ n ∈ root.subtree, _ ∧ _))

variable {p : Node → Bool}

theorem IsLaidOut.root {n : Node} (h : n.IsLaidOut) :
    (∀ c ∈ n.children, n.start ≤ c.start ∧ c.stop ≤ n.stop) ∧
      n.children.Pairwise fun a b => a.stop ≤ b.start := by
  apply h n
  obtain ⟨label, children⟩ := n
  exact List.mem_cons_self

theorem IsLaidOut.child {n : Node} (h : n.IsLaidOut) : ∀ c ∈ n.children, c.IsLaidOut := by
  intro c hc m hm
  apply h m
  obtain ⟨label, children⟩ := n
  exact List.mem_cons_of_mem _ ((subtree_sublist_of_mem hc).subset hm)

mutual
/-- All nodes of such a tree stand in what its root covers. -/
theorem IsLaidOut.within (n : Node) (h : n.IsLaidOut) :
    ∀ m ∈ n.subtree, n.start ≤ m.start ∧ m.stop ≤ n.stop := by
  have hchildren := h.root.1
  have hbelow := h.child
  obtain ⟨label, children⟩ := n
  intro m hm
  rw [subtree] at hm
  rcases List.mem_cons.mp hm with rfl | hm
  · exact ⟨Nat.le_refl _, Nat.le_refl _⟩
  · exact within_among children hbelow hchildren m hm

/-- What lies among children lies within their bounds. -/
theorem within_among {start stop : Nat} (ns : List Node) (h : ∀ n ∈ ns, n.IsLaidOut)
    (hcover : ∀ n ∈ ns, start ≤ n.start ∧ n.stop ≤ stop) :
    ∀ m ∈ subtrees ns, start ≤ m.start ∧ m.stop ≤ stop := by
  cases ns with
  | nil => exact fun m hm => absurd hm List.not_mem_nil
  | cons n ns =>
    intro m hm
    rw [subtrees] at hm
    rcases List.mem_append.mp hm with hm | hm
    · have hn := hcover n List.mem_cons_self
      have hm := IsLaidOut.within n (h n List.mem_cons_self) m hm
      omega
    · exact within_among ns (fun n hn => h n (List.mem_cons_of_mem _ hn))
        (fun n hn => hcover n (List.mem_cons_of_mem _ hn)) m hm
end

mutual
/-- The topmost nodes of such a tree stand one behind the other. -/
theorem IsLaidOut.pairwise_topmost (n : Node) (h : n.IsLaidOut) :
    (n.topmost p).Pairwise fun a b => a.stop ≤ b.start := by
  have hchildren := h.root.2
  have hbelow := h.child
  obtain ⟨label, children⟩ := n
  rw [topmost]
  split
  · exact List.pairwise_singleton _ _
  · exact pairwise_topmosts children hbelow hchildren

/-- The topmost nodes of a laid out tree follow one another. -/
theorem pairwise_topmosts (ns : List Node) (h : ∀ n ∈ ns, n.IsLaidOut)
    (hfollow : ns.Pairwise fun a b => a.stop ≤ b.start) :
    (topmosts p ns).Pairwise fun a b => a.stop ≤ b.start := by
  cases ns with
  | nil => exact List.Pairwise.nil
  | cons n ns =>
    obtain ⟨hbehind, hfollow⟩ := List.pairwise_cons.mp hfollow
    obtain ⟨hfirst, hrest⟩ := List.forall_mem_cons.mp h
    rw [topmosts]
    refine List.pairwise_append.mpr
      ⟨hfirst.pairwise_topmost n, pairwise_topmosts ns hrest hfollow, fun a ha b hb => ?_⟩
    rw [topmosts_eq_flatMap] at hb
    obtain ⟨m, hm, hb⟩ := List.mem_flatMap.mp hb
    calc a.stop
      _ ≤ n.stop := (hfirst.within n a ((topmost_sublist p n).subset ha)).2
      _ ≤ m.start := hbehind m hm
      _ ≤ b.start := ((hrest m hm).within m b ((topmost_sublist p m).subset hb)).1
end

end Text

end Node

end CodeAtlas.Syntax
