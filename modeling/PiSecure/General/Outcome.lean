import Mathlib.Data.List.Forall2

/-! # Computations that may fail

When a chain of fallible steps succeeds, and when a fallible function succeeds
on every item of a list.
-/

namespace PiSecure

variable {Error First Second : Type}

theorem bind_eq_ok {step : Except Error First} {next : First → Except Error Second}
    {result : Second} :
    step >>= next = .ok result ↔ ∃ middle, step = .ok middle ∧ next middle = .ok result := by
  cases step with
  | error reason => exact ⟨fun failed => (nomatch failed), fun ⟨_, failed, _⟩ => (nomatch failed)⟩
  | ok middle =>
      refine ⟨fun succeeded => ⟨middle, rfl, succeeded⟩, ?_⟩
      rintro ⟨_, same, succeeded⟩
      cases same
      exact succeeded

theorem pure_eq_ok {value result : First} :
    (pure value : Except Error First) = .ok result ↔ value = result :=
  ⟨fun same => Except.ok.inj same, fun same => congrArg Except.ok same⟩

/-- A fallible map succeeds when it does so on every item. -/
theorem mapM_eq_ok {read : First → Except Error Second} {items : List First}
    {results : List Second} :
    items.mapM read = .ok results ↔ List.Forall₂ (fun item result => read item = .ok result) items
      results := by
  induction items generalizing results with
  | nil =>
      rw [List.mapM_nil, pure_eq_ok, List.forall₂_nil_left_iff, eq_comm]
  | cons item rest ih =>
      rw [List.mapM_cons, bind_eq_ok, List.forall₂_cons_left_iff]
      constructor
      · rintro ⟨first, readFirst, succeeded⟩
        obtain ⟨others, readRest, same⟩ := bind_eq_ok.mp succeeded
        exact ⟨first, others, readFirst, ih.mp readRest, (pure_eq_ok.mp same).symm⟩
      · rintro ⟨first, others, readFirst, readRest, rfl⟩
        exact ⟨first, readFirst, bind_eq_ok.mpr ⟨others, ih.mpr readRest, rfl⟩⟩

/-- A check of every item succeeds when it succeeds on each. -/
theorem forM_eq_ok {check : First → Except Error Unit} {items : List First} :
    items.forM check = .ok () ↔ ∀ item ∈ items, check item = .ok () := by
  induction items with
  | nil => exact ⟨fun _ _ impossible => (nomatch impossible), fun _ => rfl⟩
  | cons item rest ih =>
      rw [List.forall_mem_cons, ← ih]
      change (check item >>= fun _ => rest.forM check) = _ ↔ _
      rw [bind_eq_ok]
      exact ⟨fun ⟨_, first, later⟩ => ⟨first, later⟩, fun both => ⟨(), both.1, both.2⟩⟩

end PiSecure
