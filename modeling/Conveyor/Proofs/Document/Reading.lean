import Conveyor.Proofs.Document.Schema
import Conveyor.Proofs.Fallible

/-!
# What is read from mappings, lists and texts

The recurring shapes of a document, read from a decoded value. Each reader is met twice: what it
has read is what the value holds, and a value that follows the schema is read. The second needs
integers that can be written out, because the text of a key is made before anything is done with
its value.

- `Knots.follow_cases`: what references lead to.
- `Value.Writable.follow`, `Value.writable_field`, `Value.writable_items`: parts of such values
  are such values.
- `readMapping_eq_ok_iff`, `readTexts_eq_ok_iff`, `requiredText_eq_ok_iff`,
  `readItems_eq_ok_iff`: collections and texts.
- `readVariables_eq_ok`, `readVariables_of_variables`: **variables**.
-/

namespace Conveyor

variable {ks : Knots} {v : Value} {es : List Value.Entry} {place key : Text}

/-! ## References -/

/-- What a value leads to is the value itself, or one of the collections. -/
theorem Knots.follow_cases (ks : Knots) (v : Value) : ks.follow v = v ∨ ∃ k ∈ ks, ks.follow v =
    k.2 := by
  cases v with
  | again label mapping =>
    rw [follow]
    cases hlabel : ks.lookup label with
    | none => exact .inl rfl
    | some w =>
      obtain ⟨before, after, rfl, -⟩ := List.lookup_eq_some_iff.1 hlabel
      exact .inr ⟨(label, w), by simp, rfl⟩
  | _ => exact .inl rfl

/-! ## Integers that can be written out -/

namespace Value

theorem Writable.entries (h : v.Writable) : ∀ e ∈ v.entries, e.1.Writable ∧ e.2.Writable := by
  cases v with
  | map es => exact writable_map.1 h
  | _ => exact fun x hx => nomatch hx

theorem Writable.follow (h : v.Writable) (hks : ks.Writable) : (ks.follow v).Writable := by
  obtain hself | ⟨k, hk, hfollow⟩ := ks.follow_cases v
  · rwa [hself]
  · rw [hfollow]
    exact hks k hk

theorem mem_of_lookup {w : Value} (h : lookup key es = some w) : (text key, w) ∈ es := by
  fun_induction lookup key es with
  | case1 => cases h
  | case2 w' rest =>
    cases h
    exact List.mem_cons_self
  | case3 k w' rest hk ih => exact List.mem_cons_of_mem _ (ih h)
  | case4 e rest htext ih => exact List.mem_cons_of_mem _ (ih h)

theorem writable_getD (h : ∀ e ∈ es, e.1.Writable ∧ e.2.Writable) (key : Text) :
    (getD es key).Writable := by
  rw [getD]
  cases hkey : lookup key es with
  | none => rfl
  | some w => exact (h _ (mem_of_lookup hkey)).2

/-- The fields of a mapping without long integers. -/
theorem writable_field (hks : ks.Writable) (h : v.Writable) (hes : ks.follow v = .map es)
    (key : Text) : (getD es key).Writable := by
  have hmap := h.follow hks
  rw [hes] at hmap
  exact writable_getD hmap.entries key

/-- The items of a list without long integers. -/
theorem writable_items (hks : ks.Writable) (h : v.Writable) {xs : List Value}
    (hxs : ks.follow v = .list xs) : ∀ x ∈ xs, x.Writable := by
  have hlist := h.follow hks
  rw [hxs] at hlist
  exact writable_list.1 hlist

/-! ## Kinds of values -/

theorem isNull_iff : v.IsNull ↔ v = .null := by
  cases v <;> simp [IsNull]

theorem asText_iff {P : Text → Prop} : v.AsText P ↔ ∃ s, v = .text s ∧ P s := by
  cases v <;> simp [AsText]

theorem asList_iff {P : List Value → Prop} : v.AsList P ↔ ∃ xs, v = .list xs ∧ P xs := by
  cases v <;> simp [AsList]

theorem asMapping_iff {P : List Entry → Prop} : v.AsMapping P ↔ ∃ es, v = .map es ∧ P es := by
  cases v <;> simp [AsMapping]

theorem nodup_bindings (v : Value) : v.bindings.names.Nodup := by
  have hnil : Bindings.names [] |>.Nodup := List.nodup_nil
  exact Bindings.nodup_update hnil _

end Value

/-! ## Texts, lists and mappings -/

theorem readMapping_eq_ok_iff :
    readMapping ks place v = .ok es ↔
      (ks.follow v).IsNull ∧ es = [] ∨ ks.follow v = .map es := by
  rw [readMapping]
  cases ks.follow v <;> simp [Value.IsNull, eq_comm]

/-- What is read from a mapping are its entries. -/
theorem entries_of_readMapping (h : readMapping ks place v = .ok es) :
    es = (ks.follow v).entries := by
  rcases readMapping_eq_ok_iff.1 h with ⟨hnull, rfl⟩ | hmap
  · rw [Value.isNull_iff.1 hnull]
    rfl
  · rw [hmap]
    rfl

/-- A mapping in which something was found is not left out. -/
theorem asMapping_of_readMapping {P : List Value.Entry → Prop}
    (h : readMapping ks place v = .ok es)
    (hes : P es) (hnil : ¬ P []) : (ks.follow v).AsMapping P := by
  rcases readMapping_eq_ok_iff.1 h with ⟨-, rfl⟩ | hmap
  · exact absurd hes hnil
  · rw [hmap]
    exact hes

theorem allTexts?_eq_some_iff {xs : List Value} {texts : List Text} :
    allTexts? xs = some texts ↔ xs = texts.map .text := by
  fun_induction allTexts? xs generalizing texts with
  | case1 => cases texts <;> simp
  | case2 s rest ih =>
    cases texts with
    | nil => simp
    | cons t ts => simp [← ih, eq_comm, and_comm]
  | case3 x rest htext =>
    cases texts with
    | nil => simp
    | cons t ts =>
      have hne : x ≠ .text t := fun hx => htext t hx
      simp [hne]

theorem readTexts_eq_ok_iff {texts : List Text} :
    readTexts ks place v = .ok texts ↔
      (ks.follow v).IsNull ∧ texts = [] ∨ ks.follow v = .list (texts.map .text) := by
  rw [readTexts]
  cases ks.follow v with
  | null => simp [Value.IsNull, eq_comm]
  | list xs =>
    have hlist : Value.list xs = .list (texts.map .text) ↔ allTexts? xs = some texts := by
      rw [Value.list.injEq, allTexts?_eq_some_iff]
    rw [hlist]
    cases htexts : allTexts? xs <;> simp [Value.IsNull, htexts]
  | _ => simp [Value.IsNull]

/-- What is read from a list of texts are its items. -/
theorem items_of_readTexts {texts : List Text} (h : readTexts ks place v = .ok texts) :
    (ks.follow v).items = texts.map .text := by
  rcases readTexts_eq_ok_iff.1 h with ⟨hnull, rfl⟩ | hlist
  · rw [Value.isNull_iff.1 hnull]
    rfl
  · rw [hlist]
    rfl

theorem exists_texts {xs : List Value} (h : ∀ x ∈ xs, x.AsText fun _ => True) :
    ∃ texts : List Text, xs = texts.map .text := by
  induction xs with
  | nil => exact ⟨[], rfl⟩
  | cons x xs ih =>
    obtain ⟨s, rfl, -⟩ := Value.asText_iff.1 (h x List.mem_cons_self)
    obtain ⟨texts, rfl⟩ := ih fun y hy => h y (List.mem_cons_of_mem _ hy)
    exact ⟨s :: texts, rfl⟩

/-- A list of texts is one that can be read. -/
theorem exists_readTexts_iff :
    (∃ texts, readTexts ks place v = .ok texts) ↔ Schema.Texts ks v := by
  simp only [readTexts_eq_ok_iff, Schema.Texts]
  constructor
  · rintro ⟨texts, ⟨hnull, -⟩ | hlist⟩
    · exact .inl hnull
    · right
      rw [hlist]
      intro x hx
      obtain ⟨s, -, rfl⟩ := List.mem_map.1 hx
      trivial
  · rintro (hnull | hlist)
    · exact ⟨[], .inl ⟨hnull, rfl⟩⟩
    · obtain ⟨xs, hxs, htexts⟩ := Value.asList_iff.1 hlist
      obtain ⟨texts, rfl⟩ := exists_texts htexts
      exact ⟨texts, .inr hxs⟩

theorem requiredText_eq_ok_iff {s : Text} :
    requiredText place key es = .ok s ↔ Value.getD es key = .text s ∧ s ≠ "" := by
  rw [requiredText, Value.getD]
  cases Value.lookup key es with
  | none => simp
  | some w =>
    cases w with
    | text t =>
      by_cases ht : t = ""
      · simp only [if_pos ht, Option.getD_some, Value.text.injEq, reduceCtorEq, false_iff]
        rintro ⟨rfl, hne⟩
        exact hne ht
      · simp only [if_neg ht, Except.ok.injEq, Option.getD_some, Value.text.injEq]
        constructor
        · rintro rfl
          exact ⟨rfl, ht⟩
        · exact And.left
    | _ => simp

theorem readItems_eq_ok_iff {fault : DocumentFault} {xs : List Value} :
    readItems ks fault v = .ok xs ↔ ks.follow v = .list xs ∧ xs.isEmpty = false := by
  rw [readItems]
  cases ks.follow v with
  | list items =>
    cases items with
    | nil =>
      constructor
      · rintro ⟨⟩
      · rintro ⟨⟨⟩, ⟨⟩⟩
    | cons x rest =>
      constructor
      · rintro ⟨⟩
        exact ⟨rfl, rfl⟩
      · rintro ⟨⟨⟩, -⟩
        rfl
  | _ => simp

/-! ## Variables -/

theorem written_eq_ok {w : Value} {text : Text} (h : written w = .ok text) :
    text = w.plainText := by
  unfold written at h
  split at h
  · cases h
  · exact (Except.ok.inj h).symm

theorem written_of_writable (h : v.Writable) : written v = .ok v.plainText := by
  rw [written, h]
  rfl

theorem readScalar_eq_ok {k w : Value} {text : Text} (h : readScalar place k w = .ok text) :
    w.IsScalar ∧ text = w.scalarText := by
  cases w with
  | null | list _ | map _ | again _ _ =>
    rw [readScalar] at h
    obtain ⟨_, -, h⟩ := bind_eq_ok h
    cases h
  | bool b =>
    rw [readScalar] at h
    obtain ⟨_, -, h⟩ := bind_eq_ok h
    cases h
    exact ⟨trivial, rfl⟩
  | int _ | float _ | text _ | date _ | stamp _ | bytes _ | set _ | pair _ _ =>
    simp only [readScalar] at h
    obtain ⟨_, -, h⟩ := bind_eq_ok h
    refine ⟨trivial, ?_⟩
    rw [Value.scalarText]
    · exact written_eq_ok h
    · simp

theorem readScalar_of_isScalar {k w : Value} (hk : k.Writable) (hw : w.Writable)
    (h : w.IsScalar) :
    readScalar place k w = .ok w.scalarText := by
  cases w with
  | null | list _ | map _ | again _ _ => exact h.elim
  | bool b =>
    simp only [readScalar, written_of_writable hk, Value.scalarText]
    rfl
  | int _ | float _ | text _ | date _ | stamp _ | bytes _ | set _ | pair _ _ =>
    simp only [readScalar, written_of_writable hk, written_of_writable hw, Value.scalarText]
    rfl

theorem readEntries_eq_ok {acc b : Bindings} (h : readEntries place acc es = .ok b) :
    (∀ e ∈ es, e.2.IsScalar) ∧
      b = acc.update (es.map fun e => (e.1.plainText, e.2.scalarText)) := by
  induction es generalizing acc with
  | nil =>
    cases h
    exact ⟨List.forall_mem_nil _, rfl⟩
  | cons e es ih =>
    rw [readEntries] at h
    obtain ⟨text, htext, h⟩ := bind_eq_ok h
    obtain ⟨hscalar, rfl⟩ := readScalar_eq_ok htext
    obtain ⟨hscalars, rfl⟩ := ih h
    refine ⟨?_, rfl⟩
    rw [List.forall_mem_cons]
    exact ⟨hscalar, hscalars⟩

theorem readEntries_of_scalars (hes : ∀ e ∈ es, e.1.Writable ∧ e.2.Writable)
    (h : ∀ e ∈ es, e.2.IsScalar) (acc : Bindings) :
    readEntries place acc es =
      .ok (acc.update (es.map fun e => (e.1.plainText, e.2.scalarText))) := by
  induction es generalizing acc with
  | nil => rfl
  | cons e es ih =>
    rw [List.forall_mem_cons] at hes h
    rw [readEntries, readScalar_of_isScalar hes.1.1 hes.1.2 h.1]
    exact ih hes.2 h.2 _

theorem readVariables_eq_ok {b : Bindings} (h : readVariables ks place v = .ok b) :
    Schema.Variables ks v ∧ b = (ks.follow v).bindings := by
  obtain ⟨es, hes, h⟩ := bind_eq_ok h
  obtain ⟨hscalars, rfl⟩ := readEntries_eq_ok h
  rw [Schema.Variables, Value.bindings, ← entries_of_readMapping hes]
  refine ⟨?_, rfl⟩
  rcases readMapping_eq_ok_iff.1 hes with ⟨hnull, -⟩ | hmap
  · exact .inl hnull
  · right
    rw [hmap]
    exact hscalars

theorem readVariables_of_variables (hks : ks.Writable) (hv : v.Writable)
    (h : Schema.Variables ks v) :
    readVariables ks place v = .ok (ks.follow v).bindings := by
  have hes := (hv.follow hks).entries
  rcases h with hnull | hmap
  · have hread : readMapping ks place v = .ok [] := readMapping_eq_ok_iff.2 (.inl ⟨hnull, rfl⟩)
    rw [readVariables, hread, Value.isNull_iff.1 hnull]
    rfl
  · obtain ⟨es, hes', hscalars⟩ := Value.asMapping_iff.1 hmap
    have hread : readMapping ks place v = .ok es := readMapping_eq_ok_iff.2 (.inr hes')
    rw [hes'] at hes ⊢
    rw [readVariables, hread]
    exact readEntries_of_scalars hes hscalars []

end Conveyor
