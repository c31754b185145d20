import Conveyor.Bindings
import Conveyor.Document.Reader
import Mathlib.Data.List.Induction
import Mathlib.Data.List.Nodup

/-!
# Bindings as mappings

Bindings and matrices are kept as lists, but they are used as mappings: a name stands once, and
what was bound last counts.

- `Assoc.put`, `Assoc.putAll`: binding in a list of pairs of any kind. `Bindings.put` and
  `putVariant` are instances of it.
- `Assoc.keys_putAll`, `Assoc.lookup_putAll`: **the keys keep the order of their first binding,
  the values are those of the last**.
- `Bindings.get?_update`: what a name has after an update, from the two parts.
- `Bindings.firstBound`: the text of a name in the first of several layers that binds it.
-/

namespace Conveyor

namespace Assoc

variable {β : Type}

/-- Bind a key: one that is bound keeps its place and takes the new value. -/
def put (key : Text) (value : β) : List (Text × β) → List (Text × β)
  | [] => [(key, value)]
  | (k, v) :: rest => if k = key then (k, value) :: rest else (k, v) :: put key value rest

/-- Bind all keys of a sequence of pairs, one after the other. -/
def putAll (base more : List (Text × β)) : List (Text × β) :=
  more.foldl (fun b e => put e.1 e.2 b) base

theorem keys_put (key : Text) (value : β) (l : List (Text × β)) :
    (put key value l).map Prod.fst =
      if key ∈ l.map Prod.fst then l.map Prod.fst else l.map Prod.fst ++ [key] := by
  induction l with
  | nil => simp [put]
  | cons e rest ih =>
    by_cases h : e.1 = key
    · simp [put, h]
    · by_cases hrest : key ∈ rest.map Prod.fst
      · rw [if_pos hrest] at ih
        have hmem : key ∈ (e :: rest).map Prod.fst := List.mem_cons_of_mem _ hrest
        rw [if_pos hmem, put, if_neg h, List.map_cons, List.map_cons, ih]
      · rw [if_neg hrest] at ih
        have hmem : key ∉ (e :: rest).map Prod.fst := by
          rw [List.map_cons, List.mem_cons, not_or]
          exact ⟨fun he => h he.symm, hrest⟩
        rw [if_neg hmem, put, if_neg h, List.map_cons, List.map_cons, ih, List.cons_append]

theorem nodup_put {l : List (Text × β)} (h : (l.map Prod.fst).Nodup) (key : Text)
    (value : β) :
    ((put key value l).map Prod.fst).Nodup := by
  rw [keys_put]
  split
  · exact h
  · rename_i hnew
    rw [List.nodup_append]
    refine ⟨h, List.nodup_singleton key, fun a ha b hb hab => hnew ?_⟩
    rw [List.mem_singleton] at hb
    rwa [← hb, ← hab]

theorem lookup_pair (key other : Text) (value : β) (rest : List (Text × β)) :
    ((key, value) :: rest).lookup other = if other = key then some value else
    rest.lookup other := by
  rw [List.lookup_cons]
  by_cases h : other = key
  · simp [h]
  · rw [if_neg h, beq_false_of_ne h]

theorem lookup_put (key other : Text) (value : β) (l : List (Text × β)) :
    (put key value l).lookup other = if other = key then some value else l.lookup other := by
  induction l with
  | nil => exact lookup_pair key other value []
  | cons e rest ih =>
    obtain ⟨k, v⟩ := e
    by_cases hk : k = key
    · subst hk
      by_cases h : other = k <;> simp [put, lookup_pair, h]
    · rw [put, if_neg hk, lookup_pair, lookup_pair, ih]
      by_cases h : other = k
      · have hother : ¬ other = key := fun he => hk (h.symm.trans he)
        rw [if_pos h, if_neg hother, if_pos h]
      · rw [if_neg h, if_neg h]

@[simp] theorem putAll_nil (base : List (Text × β)) : putAll base [] = base := rfl

theorem putAll_concat (base more : List (Text × β)) (e : Text × β) :
    putAll base (more ++ [e]) = put e.1 e.2 (putAll base more) := by
  rw [putAll, putAll, List.foldl_concat]

theorem nodup_putAll {base : List (Text × β)} (h : (base.map Prod.fst).Nodup)
    (more : List (Text × β)) : ((putAll base more).map Prod.fst).Nodup := by
  induction more using List.reverseRecOn with
  | nil => exact h
  | append_singleton more e ih =>
    rw [putAll_concat]
    exact nodup_put ih e.1 e.2

/-- The keys of a sequence of pairs, each at the place of its first binding. -/
theorem keys_putAll (pairs : List (Text × β)) :
    (putAll [] pairs).map Prod.fst = (pairs.map Prod.fst).eraseDups := by
  induction pairs using List.reverseRecOn with
  | nil => simp
  | append_singleton pairs e ih =>
    rw [putAll_concat, keys_put, ih, List.map_append, List.eraseDups_append]
    by_cases h : e.1 ∈ pairs.map Prod.fst
    · have hgone : [e.1].removeAll (pairs.map Prod.fst) = [] := by simpa [List.removeAll] using h
      rw [if_pos (List.mem_eraseDups.2 h), List.map_singleton, hgone, List.eraseDups_nil,
        List.append_nil]
    · have hnew : [e.1].removeAll (pairs.map Prod.fst) = [e.1] := by
        simpa [List.removeAll] using h
      rw [if_neg (mt List.mem_eraseDups.1 h), List.map_singleton, hnew, List.eraseDups_cons,
        List.filter_nil, List.eraseDups_nil]

/-- The value of a key is that of its last binding. -/
theorem lookup_putAll (base more : List (Text × β)) (key : Text) :
    (putAll base more).lookup key = (more.reverse.lookup key).or (base.lookup key) := by
  induction more using List.reverseRecOn with
  | nil => simp
  | append_singleton more e ih =>
    rw [putAll_concat, lookup_put, List.reverse_append, List.reverse_singleton,
      List.singleton_append, lookup_pair, ih]
    split <;> rfl

theorem lookup_of_not_mem {l : List (Text × β)} {key : Text} (h : key ∉ l.map Prod.fst) :
    l.lookup key = none := by
  rw [List.lookup_eq_none_iff]
  intro e he
  refine bne_iff_ne.2 fun heq => h ?_
  rw [heq]
  exact List.mem_map_of_mem he

theorem lookup_of_mem {l : List (Text × β)} (h : (l.map Prod.fst).Nodup) {key : Text}
    {value : β}
    (hmem : (key, value) ∈ l) : l.lookup key = some value := by
  induction l with
  | nil => cases hmem
  | cons e rest ih =>
    rw [List.map_cons, List.nodup_cons] at h
    rw [← Prod.eta e, lookup_pair]
    rcases List.mem_cons.1 hmem with rfl | hrest
    · exact if_pos rfl
    · have hne : key ≠ e.1 := fun heq => h.1 (heq ▸ List.mem_map.2 ⟨_, hrest, rfl⟩)
      rw [if_neg hne]
      exact ih h.2 hrest

theorem mem_of_mem_put {key : Text} {value : β} {l : List (Text × β)} {e : Text × β}
    (h : e ∈ put key value l) : e = (key, value) ∨ e ∈ l := by
  induction l with
  | nil => exact .inl (List.mem_singleton.1 h)
  | cons e' rest ih =>
    rw [put] at h
    split at h
    · rename_i hkey
      rw [hkey] at h
      exact (List.mem_cons.1 h).imp id (List.mem_cons_of_mem _)
    · rcases List.mem_cons.1 h with rfl | hrest
      · exact .inr List.mem_cons_self
      · exact (ih hrest).imp id (List.mem_cons_of_mem _)

theorem mem_of_mem_putAll {base more : List (Text × β)} {e : Text × β}
    (h : e ∈ putAll base more) :
    e ∈ base ∨ e ∈ more := by
  induction more generalizing base with
  | nil => exact .inl h
  | cons e' rest ih =>
    rcases ih h with hput | hrest
    · rcases mem_of_mem_put hput with rfl | hbase
      · exact .inr List.mem_cons_self
      · exact .inl hbase
    · exact .inr (List.mem_cons_of_mem _ hrest)

/-- In a list without repeated keys the first binding of a key is also the last. -/
theorem lookup_reverse {l : List (Text × β)} (h : (l.map Prod.fst).Nodup) (key : Text) :
    l.reverse.lookup key = l.lookup key := by
  induction l with
  | nil => rfl
  | cons e rest ih =>
    obtain ⟨k, v⟩ := e
    rw [List.map_cons, List.nodup_cons] at h
    rw [List.reverse_cons, List.lookup_append, ih h.2, lookup_pair, lookup_pair]
    by_cases hkey : key = k
    · rw [if_pos hkey, if_pos hkey, lookup_of_not_mem (hkey ▸ h.1), Option.none_or]
    · rw [if_neg hkey, if_neg hkey, List.lookup_nil, Option.or_none]

end Assoc

theorem putVariant_eq (name : Text) (b : Bindings) (l : List (Text × Bindings)) :
    putVariant name b l = Assoc.put name b l := by
  induction l with
  | nil => rfl
  | cons e rest ih => rw [putVariant, Assoc.put, ih]

namespace Bindings

variable {b base more : Bindings}

theorem put_eq (name text : Text) (b : Bindings) :
    put name text b = Assoc.put name text b := by
  induction b with
  | nil => rfl
  | cons e rest ih => rw [put, Assoc.put, ih]

theorem get?_eq (name : Text) (b : Bindings) : get? name b = b.lookup name := by
  induction b with
  | nil => rfl
  | cons e rest ih =>
    rw [get?, Assoc.lookup_pair, ih]
    simp only [eq_comm]

theorem get?_of_not_mem {name : Text} (h : name ∉ b.names) : b.get? name = none := by
  rw [get?_eq]
  exact Assoc.lookup_of_not_mem h

theorem update_eq (base more : Bindings) : base.update more = Assoc.putAll base more := by
  rw [update, Assoc.putAll]
  simp only [put_eq]

/-- Names stay distinct when more is bound. -/
theorem nodup_update (h : base.names.Nodup) (more : Bindings) :
    (base.update more).names.Nodup := by
  rw [update_eq]
  exact Assoc.nodup_putAll h more

theorem nodup_put (h : b.names.Nodup) (name text : Text) : (b.put name text).names.Nodup := by
  rw [put_eq]
  exact Assoc.nodup_put h name text

theorem get?_put (name other text : Text) (b : Bindings) :
    (b.put name text).get? other = if other = name then some text else b.get? other := by
  rw [put_eq, get?_eq, get?_eq, Assoc.lookup_put]

/-- After an update a name has what the second part binds it to, and otherwise what it had. -/
theorem get?_update (h : more.names.Nodup) (base : Bindings) (name : Text) :
    (base.update more).get? name = (more.get? name).or (base.get? name) := by
  rw [update_eq, get?_eq, get?_eq, get?_eq, Assoc.lookup_putAll, Assoc.lookup_reverse h]

/-- The text of a name in the first of several layers that binds it. -/
def firstBound (layers : List Bindings) (name : Text) : Option Text :=
  layers.findSome? (get? name)

@[simp] theorem firstBound_nil (name : Text) : firstBound [] name = none := rfl

@[simp] theorem firstBound_cons (b : Bindings) (layers : List Bindings) (name : Text) :
    firstBound (b :: layers) name = (b.get? name).or (firstBound layers name) := by
  rw [firstBound, List.findSome?_cons]
  cases b.get? name <;> rfl

end Bindings

end Conveyor
