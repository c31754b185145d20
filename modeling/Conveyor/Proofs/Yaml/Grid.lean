import Conveyor.Proofs.Fallible
import Conveyor.Proofs.Number.Sign
import Conveyor.Yaml.Decode

/-!
# The numbers of decoded documents

Whatever a YAML file says, the numbers of its value are numbers of the format, so the finite ones
are on the grid of the least positive number. Scalars are the only source of numbers; building
only puts together what scalars stand for.

- `Value.OnGrid`: a value whose numbers are on the grid, wherever lists and mappings lead.
- `Yaml.onGrid_scalarValue`: the value of a scalar.
- `Yaml.Build.KeepsGrid`: a step of building after which all nodes still stand for such values.
- `Yaml.Build.keepsGrid_meet`, `Yaml.Build.keepsGrid_fillAll`: the steps.
- `Yaml.onGrid_decode`: **the value of a file, and the collections that are part of themselves**.
-/

namespace Conveyor

/-! ## Values -/

namespace Value

mutual

/-- Are the numbers of a value on the grid? Keys do not count. -/
def OnGrid : Value → Prop
  | .float x => x.OnGrid
  | .list xs => AllOnGrid xs
  | .map es => EntriesOnGrid es
  | _ => True

/-- Are the numbers of each value of a list on the grid? -/
def AllOnGrid : List Value → Prop
  | [] => True
  | x :: xs => OnGrid x ∧ AllOnGrid xs

/-- Are the numbers of each value of a mapping on the grid? -/
def EntriesOnGrid : List (Value × Value) → Prop
  | [] => True
  | (_, v) :: es => OnGrid v ∧ EntriesOnGrid es

end

theorem onGrid_list {xs : List Value} : (list xs).OnGrid ↔ ∀ x ∈ xs, x.OnGrid := by
  rw [OnGrid]
  induction xs with
  | nil => simp [AllOnGrid]
  | cons x xs ih => simp [AllOnGrid, ih]

theorem onGrid_map {es : List Entry} : (map es).OnGrid ↔ ∀ e ∈ es, e.2.OnGrid := by
  rw [OnGrid]
  induction es with
  | nil => simp [EntriesOnGrid]
  | cons e es ih =>
    rw [EntriesOnGrid, List.forall_mem_cons, ih]

end Value

/-- Are the numbers of collections on the grid? -/
def Knots.OnGrid (ks : Knots) : Prop := ∀ k ∈ ks, k.2.OnGrid

namespace Yaml

/-! ## Scalars -/

theorem onGrid_decimalFloat {cs : List CodePoint} {x : Binary64} (h : decimalFloat cs = .ok x) :
    x.OnGrid := by
  unfold decimalFloat at h
  split at h
  · rename_i y hy
    cases h
    exact onGrid_readFloat? hy
  · cases h

theorem onGrid_floatSixties {base : Nat} {sum x : Binary64} (hsum : sum.OnGrid)
    {places : List Binary64}
    (h : floatSixties base sum places = .ok x) : x.OnGrid := by
  induction places generalizing base sum with
  | nil =>
    cases h
    exact hsum
  | cons p rest ih =>
    rw [floatSixties] at h
    split at h
    · exact ih (Binary64.onGrid_add ..) h
    · cases h

theorem onGrid_signed {x : Binary64} (h : x.OnGrid) (negative : Prop) [Decidable negative] :
    (if negative then x.neg else x).OnGrid := by
  split
  · exact h.neg
  · exact h

theorem onGrid_floatValue {text : Text} {x : Binary64} (h : floatValue text = .ok x) :
    x.OnGrid := by
  unfold floatValue at h
  dsimp only at h
  split at h
  · cases h
  split at h
  · cases h
    exact onGrid_signed (Binary64.onGrid_infinity false) _
  split at h
  · cases h
    exact onGrid_signed Binary64.onGrid_nan _
  split at h
  · obtain ⟨places, -, h⟩ := bind_eq_ok h
    obtain ⟨y, hy, h⟩ := bind_eq_ok h
    cases h
    exact onGrid_signed (onGrid_floatSixties Binary64.onGrid_zero hy) _
  · obtain ⟨y, hy, h⟩ := bind_eq_ok h
    cases h
    exact onGrid_signed (onGrid_decimalFloat hy) _

/-- Neither a date nor a point in time is a number. -/
theorem onGrid_momentValue {text : Text} {v : Value} (h : momentValue text = .ok v) :
    v.OnGrid := by
  unfold momentValue at h
  split at h
  · cases h
  dsimp only at h
  split at h
  · obtain ⟨date, -, rfl⟩ := exists_of_map_eq_ok (eq_ok_of_mapError h)
    trivial
  · split at h <;>
    · obtain ⟨offset, -, h⟩ := bind_eq_ok h
      obtain ⟨stamp, -, rfl⟩ := exists_of_map_eq_ok (eq_ok_of_mapError h)
      trivial

/-- The value of a scalar is on the grid. -/
theorem onGrid_scalarValue {tag : Tag} {text : Text} {v : Value} (h : scalarValue tag text =
    .ok v) :
    v.OnGrid := by
  cases tag with
  | null | str =>
    cases h
    trivial
  | bool | int | binary =>
    obtain ⟨_, -, rfl⟩ := exists_of_map_eq_ok h
    trivial
  | float =>
    obtain ⟨x, hx, rfl⟩ := exists_of_map_eq_ok h
    exact onGrid_floatValue hx
  | timestamp => exact onGrid_momentValue h
  | _ => cases h

/-! ## Building -/

/-- Does a node stand for numbers on the grid? The parts of a collection are nodes of their
own. -/
def Built.OnGrid : Built → Prop
  | .atom v => v.OnGrid
  | _ => True

namespace Build

variable {α β : Type}

/-- Do all nodes that were met stand for numbers on the grid? -/
def OnGrid (s : Build) : Prop := ∀ id b, s.built.getD id none = some b → b.OnGrid

/-- A step of building that leaves all nodes on the grid. -/
def KeepsGrid (x : BuildM α) : Prop := ∀ s a s', x.run s = .ok (a, s') → s.OnGrid → s'.OnGrid

theorem keepsGrid_pure (a : α) : KeepsGrid (pure a) := by
  intro s b s' h hs
  cases h
  exact hs

theorem keepsGrid_throw (fault : Fault) : KeepsGrid (throw fault : BuildM α) := by
  intro s a s' h
  cases h

theorem KeepsGrid.bind {x : BuildM α} {g : α → BuildM β} (hx : KeepsGrid x)
    (hg : ∀ a, KeepsGrid (g a)) : KeepsGrid (x >>= g) := by
  intro s b s' h hs
  rw [StateT.run_bind] at h
  obtain ⟨⟨a, s₁⟩, ha, h⟩ := bind_eq_ok h
  exact hg a s₁ b s' h (hx s a s₁ ha hs)

/-- What comes after a look at the state may rely on it. -/
theorem keepsGrid_get_bind {g : Build → BuildM β} (hg : ∀ s, s.OnGrid → KeepsGrid (g s)) :
    KeepsGrid (get >>= g) := by
  intro s b s' h hs
  exact hg s hs s b s' h hs

/-- What comes after a computation without a state may rely on its result. -/
theorem keepsGrid_lift_bind {x : Except Fault α} {g : α → BuildM β}
    (hg : ∀ a, x = .ok a → KeepsGrid (g a)) : KeepsGrid (liftM x >>= g) := by
  intro s b s' h hs
  cases x with
  | error fault => cases h
  | ok a => exact hg a rfl s b s' h hs

theorem keepsGrid_set {s : Build} (hs : s.OnGrid) : KeepsGrid (set s) := by
  intro s₁ a s' h _
  cases h
  exact hs

theorem keepsGrid_forM {f : NodeId → BuildM Unit} (hf : ∀ id, KeepsGrid (f id))
    (ids : List NodeId) :
    KeepsGrid (ids.forM f) := by
  induction ids with
  | nil => exact keepsGrid_pure ()
  | cons id ids ih => exact (hf id).bind fun _ => ih

theorem keepsGrid_foldlM {f : β → α → BuildM β} (hf : ∀ b a, KeepsGrid (f b a)) (b : β)
    (as : List α) :
    KeepsGrid (as.foldlM f b) := by
  induction as generalizing b with
  | nil => exact keepsGrid_pure b
  | cons a as ih => exact (hf b a).bind ih

theorem keepsGrid_mapM {f : α → BuildM β} (hf : ∀ a, KeepsGrid (f a)) (as : List α) :
    KeepsGrid (as.mapM f) := by
  induction as with
  | nil => exact keepsGrid_pure []
  | cons a as ih =>
    rw [List.mapM_cons]
    exact (hf a).bind fun _ => ih.bind fun _ => keepsGrid_pure _

/-! ### Nodes that are met -/

/-- What is found after something was put in one place is that, or what was found there
before. -/
theorem eq_or_of_getD_modify {xs : Array (Option α)} {i j : Nat} {a b : α}
    (h : (xs.modify i fun _ => some a).getD j none = some b) :
    b = a ∨ xs.getD j none = some b := by
  rw [Array.getD_eq_getD_getElem?, Array.getElem?_modify] at h
  split at h
  · cases hold : xs[j]? with
    | none =>
      rw [hold] at h
      cases h
    | some old =>
      rw [hold] at h
      exact .inl (Option.some.inj h).symm
  · rw [← Array.getD_eq_getD_getElem?] at h
    exact .inr h

theorem keepsGrid_place (id : NodeId) (b : Built) (hb : b.OnGrid) : KeepsGrid (place id b) := by
  intro s a s' h hs
  cases h
  intro id' b' hb'
  obtain rfl | hb' := eq_or_of_getD_modify hb'
  · exact hb
  · exact hs id' b' hb'

theorem keepsGrid_postpone (id : NodeId) (b : Built) (hb : b.OnGrid) :
    KeepsGrid (postpone id b) := by
  refine (keepsGrid_place id b hb).bind fun _ => ?_
  intro s a s' h hs
  cases h
  exact hs

theorem keepsGrid_readScalar (id : NodeId) (n : Node) : KeepsGrid (readScalar id n) := by
  refine keepsGrid_get_bind fun s _ => keepsGrid_lift_bind fun text _ => ?_
  split
  · exact keepsGrid_throw _
  · exact keepsGrid_lift_bind fun v hv => keepsGrid_place id (.atom v) (onGrid_scalarValue hv)

theorem keepsGrid_meet (id : NodeId) : KeepsGrid (meet id) := by
  refine keepsGrid_get_bind fun s _ => ?_
  split
  · exact keepsGrid_pure ()
  · dsimp only
    split
    -- A collection is empty when it is met.
    · exact keepsGrid_postpone id (.list []) trivial
    · exact keepsGrid_postpone id (.map []) trivial
    · exact keepsGrid_postpone id (.set []) trivial
    · exact keepsGrid_postpone id (.pairs []) trivial
    · exact keepsGrid_postpone id (.pairs []) trivial
    · exact keepsGrid_throw _
    · exact keepsGrid_throw _
    · exact keepsGrid_throw _
    · exact keepsGrid_readScalar id _

theorem keepsGrid_meetEntry (slots : List Slot) (e : NodeId × NodeId) :
    KeepsGrid (meetEntry slots e) := by
  refine (keepsGrid_meet e.1).bind fun _ => keepsGrid_get_bind fun s _ => ?_
  split
  · exact (keepsGrid_meet e.2).bind fun _ => keepsGrid_pure _
  · exact keepsGrid_throw _

/-! ### Collections that are filled -/

/-- Merge keys change the graph, but not what its nodes stand for. -/
theorem keepsGrid_meetEntries (id : NodeId) (n : Node) : KeepsGrid (meetEntries id n) := by
  unfold meetEntries
  split
  · refine keepsGrid_get_bind fun s hs => keepsGrid_lift_bind fun graph _ => ?_
    have hflat : ({ s with graph := graph } : Build).OnGrid := hs
    exact (keepsGrid_set hflat).bind fun _ => keepsGrid_foldlM keepsGrid_meetEntry _ _
  · exact keepsGrid_throw _

theorem keepsGrid_meetPair (id : NodeId) : KeepsGrid (meetPair id) := by
  refine keepsGrid_get_bind fun s _ => ?_
  split
  · exact (keepsGrid_meet _).bind fun _ => (keepsGrid_meet _).bind fun _ => keepsGrid_pure _
  · exact keepsGrid_throw _

theorem keepsGrid_itemsOf (n : Node) : KeepsGrid (itemsOf n) := by
  unfold itemsOf
  split
  · exact keepsGrid_pure _
  · exact keepsGrid_throw _

theorem keepsGrid_fill (id : NodeId) : KeepsGrid (fill id) := by
  refine keepsGrid_get_bind fun s _ => ?_
  dsimp only
  split
  · refine (keepsGrid_itemsOf _).bind fun items => ?_
    exact (keepsGrid_forM keepsGrid_meet items).bind fun _ =>
      keepsGrid_place id (.list items) trivial
  · exact (keepsGrid_meetEntries id _).bind fun slots => keepsGrid_place id (.map slots) trivial
  · exact (keepsGrid_meetEntries id _).bind fun slots => keepsGrid_place id (.set slots) trivial
  · refine (keepsGrid_itemsOf _).bind fun items => ?_
    exact (keepsGrid_mapM keepsGrid_meetPair items).bind fun pairs =>
      keepsGrid_place id (.pairs pairs) trivial

theorem keepsGrid_fillAll (fuel : Nat) : KeepsGrid (fillAll fuel) := by
  induction fuel with
  | zero => exact keepsGrid_pure ()
  | succ fuel ih =>
    refine keepsGrid_get_bind fun s hs => ?_
    split
    · exact keepsGrid_pure ()
    · have hnone : ({ s with waiting := [] } : Build).OnGrid := hs
      exact (keepsGrid_set hnone).bind fun _ => (keepsGrid_forM keepsGrid_fill _).bind fun _ =>
        ih

theorem onGrid_start (g : Graph) : (start g).OnGrid := by
  intro id b hb
  simp only [start, Array.getD_eq_getD_getElem?, Array.getElem?_replicate] at hb
  split at hb <;> cases hb

/-- All that the root of a graph stands for is on the grid. -/
theorem onGrid_run {g : Graph} {root : NodeId} {built : Array (Option Built)} (h : run g root =
    .ok built) :
    ∀ id b, built.getD id none = some b → b.OnGrid := by
  obtain ⟨⟨⟨⟩, s⟩, hrun, h⟩ := bind_eq_ok h
  cases h
  have hkeeps : KeepsGrid (do meet root; fillAll (g.size + 1) : BuildM Unit) :=
    (keepsGrid_meet root).bind fun _ => keepsGrid_fillAll _
  exact hkeeps (start g) () s hrun (onGrid_start g)

/-! ### Values that are settled -/

/-- A collection is on the grid if its parts are. -/
theorem onGrid_assemble {part : NodeId → Option Value} (hpart : ∀ id v, part id = some v →
    v.OnGrid)
    {b : Built} (hb : b.OnGrid) {v : Value} (h : assemble part b = some v) : v.OnGrid := by
  cases b with
  | atom w =>
    cases h
    exact hb
  | list items =>
    obtain ⟨vs, hvs, rfl⟩ := Option.map_eq_some_iff.1 h
    exact Value.onGrid_list.2 (forall_mem_of_mapM_eq_some hpart hvs)
  | pairs items =>
    -- Pairs are looked at as a whole only.
    obtain ⟨vs, hvs, rfl⟩ := Option.map_eq_some_iff.1 h
    refine Value.onGrid_list.2 (forall_mem_of_mapM_eq_some (fun item w hw => ?_) hvs)
    obtain ⟨first, -, hw⟩ := Option.bind_eq_some_iff.1 hw
    obtain ⟨second, -, hw⟩ := Option.bind_eq_some_iff.1 hw
    cases hw
    trivial
  | map slots =>
    obtain ⟨es, hes, rfl⟩ := Option.map_eq_some_iff.1 h
    refine Value.onGrid_map.2 (forall_mem_of_mapM_eq_some (fun slot e he => ?_) hes)
    obtain ⟨w, hw, he⟩ := Option.bind_eq_some_iff.1 he
    cases he
    exact hpart _ w hw
  | set slots =>
    cases h
    trivial

variable {built : Array (Option Built)} {settled : Array (Option Value)}

/-- Are all values that are settled on the grid? -/
def SettledOnGrid (settled : Array (Option Value)) : Prop :=
  ∀ id v, settled.getD id none = some v → v.OnGrid

theorem settledOnGrid_modify (h : SettledOnGrid settled) (id : NodeId) {v : Value}
    (hv : v.OnGrid) :
    SettledOnGrid (settled.modify id fun _ => some v) := by
  intro id' w hw
  obtain rfl | hw := eq_or_of_getD_modify hw
  · exact hv
  · exact h id' w hw

theorem settledOnGrid_settlePass (hbuilt : ∀ id b, built.getD id none = some b → b.OnGrid)
    (h : SettledOnGrid settled) : SettledOnGrid (settlePass built settled) := by
  unfold settlePass
  generalize List.range built.size = ids
  induction ids with
  | nil => exact h
  | cons id ids ih =>
    rw [List.foldr_cons]
    split
    · rename_i b _ hb
      split
      · rename_i v hv
        exact settledOnGrid_modify ih id (onGrid_assemble ih (hbuilt id b hb) hv)
      · exact ih
    · exact ih

theorem settledOnGrid_settle (hbuilt : ∀ id b, built.getD id none = some b → b.OnGrid)
    (fuel : Nat)
    (h : SettledOnGrid settled) : SettledOnGrid (settle built fuel settled) := by
  induction fuel generalizing settled with
  | zero => exact h
  | succ fuel ih =>
    rw [settle]
    split
    · exact h
    · exact ih (settledOnGrid_settlePass hbuilt h)

theorem onGrid_reference (id : NodeId) : (reference built id).OnGrid := by
  unfold reference
  split <;> trivial

theorem onGrid_values (hbuilt : ∀ id b, built.getD id none = some b → b.OnGrid) (root : NodeId) :
    (values built root).1.OnGrid ∧ (values built root).2.OnGrid := by
  have hstart : SettledOnGrid (Array.replicate built.size none) := by
    intro id v hv
    rw [Array.getD_eq_getD_getElem?, Array.getElem?_replicate] at hv
    split at hv <;> cases hv
  have hsettled := settledOnGrid_settle hbuilt (built.size + 1) hstart
  unfold values
  generalize settle built (built.size + 1) (Array.replicate built.size none) =
    settled at hsettled
  -- A node that is not settled is a reference to a collection that is part of itself.
  have hvalue (id : NodeId) : ((settled.getD id none).getD (reference built id)).OnGrid := by
    cases h : settled.getD id none with
    | none => exact onGrid_reference id
    | some v => exact hsettled id v h
  refine ⟨hvalue root, ?_⟩
  intro k hk
  obtain ⟨id, -, hk⟩ := List.mem_filterMap.1 hk
  split at hk
  · rename_i b _ hb
    obtain ⟨v, hv, rfl⟩ := Option.map_eq_some_iff.1 hk
    refine onGrid_assemble (fun part w hw => ?_) (hbuilt id b hb) hv
    cases hw
    exact hvalue part
  · cases hk

end Build

/-- **Whatever a file says, the numbers of its value are on the grid**, also those of the
collections that are part of themselves. -/
theorem onGrid_decode {bytes : List UInt8} {v : Value} {ks : Knots} (h : decode bytes =
    .ok (v, ks)) :
    v.OnGrid ∧ ks.OnGrid := by
  obtain ⟨graph, -, h⟩ := bind_eq_ok h
  split at h
  · cases h
    exact ⟨trivial, List.forall_mem_nil _⟩
  · obtain ⟨built, hrun, h⟩ := bind_eq_ok h
    cases h
    exact Build.onGrid_values (Build.onGrid_run hrun) _

end Yaml

end Conveyor
