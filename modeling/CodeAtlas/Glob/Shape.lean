/-!
Languages of byte texts built from single bytes and free runs. A text is tested against a shape by
one table for each part of the shape, so the work is the product of their sizes.

Main statement: `accepts_iff`, the tables decide `Spells`.
-/
namespace CodeAtlas.Glob

/-- A set of bytes: those in one of the ranges, or those in none. -/
structure ByteClass where
  negated : Bool
  ranges : List (UInt8 × UInt8)
deriving DecidableEq, Repr, Inhabited

namespace ByteClass

def has (k : ByteClass) (b : UInt8) : Bool :=
  (k.ranges.any fun r => r.1 ≤ b && b ≤ r.2) != k.negated

def single (b : UInt8) : ByteClass := ⟨false, [(b, b)]⟩

def all : ByteClass := ⟨true, []⟩

end ByteClass

inductive Shape where
  | empty
  | byte (allowed : ByteClass)
  | run
  | seq (first second : Shape)
  | either (left right : Shape)
deriving DecidableEq, Repr, Inhabited

namespace Shape

/-- The texts of a shape. -/
def Spells : Shape → List UInt8 → Prop
  | empty, s => s = []
  | byte k, s => ∃ b, s = [b] ∧ k.has b = true
  | run, _ => True
  | seq a b, s => ∃ p r, s = p ++ r ∧ a.Spells p ∧ b.Spells r
  | either a b, s => a.Spells s ∨ b.Spells s

/-- One shape after the other; the empty shape adds nothing. -/
def andThen : Shape → Shape → Shape
  | empty, b => b
  | a, empty => a
  | a, b => seq a b

def ends : List UInt8 → List (List UInt8)
  | [] => [[]]
  | b :: rest => (b :: rest) :: ends rest

/-- A byte of the class, then an end that the table marks. -/
def byteTable (k : ByteClass) : List UInt8 → List Bool → List Bool
  | b :: rest, _ :: later => (k.has b && later.headD false) :: byteTable k rest later
  | _, later => later.map fun _ => false

def runTable : List Bool → List Bool
  | [] => []
  | here :: later => (here || later.any id) :: runTable later

/-- For each end of a text whether it is spelled by the shape and then an end that `later`
marks. -/
def before : Shape → List UInt8 → List Bool → List Bool
  | empty, _, later => later
  | byte k, s, later => byteTable k s later
  | run, _, later => runTable later
  | seq a b, s, later => a.before s (b.before s later)
  | either a b, s, later => List.zipWith or (a.before s later) (b.before s later)

def accepts (a : Shape) (s : List UInt8) : Bool :=
  (a.before s ((ends s).map List.isEmpty)).headD false

/-- Whether the text is spelled by the shape and then a rest with the property `k`. -/
def leads : Shape → (List UInt8 → Bool) → List UInt8 → Bool
  | empty, k, s => k s
  | byte c, k, b :: rest => c.has b && k rest
  | byte _, _, [] => false
  | run, k, s => (ends s).any k
  | seq a b, k, s => a.leads (b.leads k) s
  | either a b, k, s => a.leads k s || b.leads k s

theorem mem_ends {s r : List UInt8} : r ∈ ends s ↔ ∃ p, s = p ++ r := by
  induction s with
  | nil => simp [ends]
  | cons b rest ih =>
    simp only [ends, List.mem_cons, ih]
    constructor
    · rintro (rfl | ⟨p, rfl⟩)
      · exact ⟨[], rfl⟩
      · exact ⟨b :: p, rfl⟩
    · rintro ⟨_ | ⟨c, p⟩, h⟩
      · exact .inl h.symm
      · simp only [List.cons_append, List.cons.injEq] at h
        exact .inr ⟨p, h.2⟩

/-- The meaning of `leads` in terms of the texts of the shape. -/
theorem leads_iff (a : Shape) (k : List UInt8 → Bool) (s : List UInt8) :
    a.leads k s = true ↔ ∃ p r, s = p ++ r ∧ a.Spells p ∧ k r = true := by
  induction a generalizing k s with
  | empty =>
    simp only [leads, Spells]
    exact ⟨fun h => ⟨[], s, rfl, rfl, h⟩, fun ⟨_, _, h, hp, hk⟩ => by subst hp; exact h ▸ hk⟩
  | byte c =>
    cases s with
    | nil => simp [leads, Spells]
    | cons b rest =>
      simp only [leads, Spells, Bool.and_eq_true]
      constructor
      · rintro ⟨hb, hk⟩
        exact ⟨[b], rest, rfl, ⟨b, rfl, hb⟩, hk⟩
      · rintro ⟨_, r, h, ⟨d, rfl, hd⟩, hk⟩
        simp only [List.cons_append, List.nil_append, List.cons.injEq] at h
        obtain ⟨rfl, rfl⟩ := h
        exact ⟨hd, hk⟩
  | run =>
    simp only [leads, Spells, List.any_eq_true, mem_ends, true_and]
    exact ⟨fun ⟨r, ⟨p, h⟩, hk⟩ => ⟨p, r, h, hk⟩, fun ⟨p, r, h, hk⟩ => ⟨r, ⟨p, h⟩, hk⟩⟩
  | seq a b iha ihb =>
    simp only [leads, Spells, iha, ihb]
    constructor
    · rintro ⟨p, r, rfl, hp, q, t, rfl, hq, hk⟩
      exact ⟨p ++ q, t, (List.append_assoc ..).symm, ⟨p, q, rfl, hp, hq⟩, hk⟩
    · rintro ⟨_, t, rfl, ⟨p, q, rfl, hp, hq⟩, hk⟩
      exact ⟨p, q ++ t, List.append_assoc .., hp, q, t, rfl, hq, hk⟩
  | either a b iha ihb =>
    simp only [leads, Spells, Bool.or_eq_true, iha, ihb]
    constructor
    · rintro (⟨p, r, h, hp, hk⟩ | ⟨p, r, h, hp, hk⟩)
      · exact ⟨p, r, h, .inl hp, hk⟩
      · exact ⟨p, r, h, .inr hp, hk⟩
    · rintro ⟨p, r, h, hp | hp, hk⟩
      · exact .inl ⟨p, r, h, hp, hk⟩
      · exact .inr ⟨p, r, h, hp, hk⟩

theorem headD_map_ends (k : List UInt8 → Bool) (s : List UInt8) :
    ((ends s).map k).headD false = k s := by
  cases s <;> rfl

theorem byteTable_map (c : ByteClass) (k : List UInt8 → Bool) (s : List UInt8) :
    byteTable c s ((ends s).map k) = (ends s).map ((byte c).leads k) := by
  induction s with
  | nil => rfl
  | cons b rest ih =>
    simp only [ends, List.map_cons, byteTable, ih, leads]
    rw [headD_map_ends]

theorem runTable_map (k : List UInt8 → Bool) (s : List UInt8) :
    runTable ((ends s).map k) = (ends s).map (run.leads k) := by
  induction s with
  | nil => simp [ends, runTable, leads]
  | cons b rest ih =>
    simp only [ends, List.map_cons, runTable, ih, leads, List.any_cons]
    simp [List.any_map]

/-- The table of a shape marks the ends from which the shape leads to a marked end. -/
theorem before_map (a : Shape) (k : List UInt8 → Bool) (s : List UInt8) :
    a.before s ((ends s).map k) = (ends s).map (a.leads k) := by
  induction a generalizing k with
  | empty => simp only [before]; rfl
  | byte c => exact byteTable_map c k s
  | run => exact runTable_map k s
  | seq a b iha ihb => simp only [before, ihb, iha]; rfl
  | either a b iha ihb => simp only [before, iha, ihb, List.zipWith_map, List.zipWith_self]; rfl

/-- A text is accepted exactly if it is one of the shape. -/
theorem accepts_iff (a : Shape) (s : List UInt8) : a.accepts s = true ↔ a.Spells s := by
  rw [accepts, before_map, headD_map_ends, leads_iff]
  simp

/-- The empty shape adds nothing to a sequence. -/
theorem andThen_spells (a b : Shape) (s : List UInt8) :
    (a.andThen b).Spells s ↔ (seq a b).Spells s := by
  have left (b : Shape) : b.Spells s ↔ (seq empty b).Spells s :=
    ⟨fun h => ⟨[], s, rfl, rfl, h⟩, fun ⟨_, _, h, hp, hb⟩ => by cases hp; exact h ▸ hb⟩
  have right (a : Shape) : a.Spells s ↔ (seq a empty).Spells s :=
    ⟨fun h => ⟨s, [], (List.append_nil s).symm, h, rfl⟩,
      fun ⟨p, _, h, ha, hr⟩ => by cases hr; rw [h, List.append_nil]; exact ha⟩
  cases a with
  | empty => exact left b
  | _ =>
    cases b with
    | empty => exact right _
    | _ => exact Iff.rfl

end Shape

end CodeAtlas.Glob
