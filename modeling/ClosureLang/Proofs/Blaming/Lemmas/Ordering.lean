import ClosureLang.Proofs.Blaming.Slots

/-!
# The order of slots

The slots for what is still to come are in the order of the tokens, two for each token, and the
others at the end.
-/

namespace ClosureLang

/-- The tokens stand one behind another. -/
def Ascending (tokens : List Token) : Prop :=
  tokens.Pairwise fun t u => t.span.start < u.span.start

variable {finish token : Token} {tokens : List Token}

theorem eq_of_mem_spare {slot : Slot} (h : slot ∈ spare finish token) : slot.token = finish := by
  rw [spare] at h
  split at h
  · rw [List.mem_singleton.mp h]
  · cases h

theorem mem_of_mem_ahead {slot : Slot} (h : slot ∈ ahead finish tokens) :
    slot.token ∈ tokens ++ [finish] := by
  induction tokens with
  | nil => rw [List.mem_singleton.mp h]; exact List.mem_singleton_self _
  | cons u tokens ih =>
      rw [ahead, List.mem_cons, List.mem_cons, List.mem_append] at h
      rcases h with rfl | rfl | hmem | hmem
      · exact List.mem_cons_self
      · exact List.mem_cons_self
      · exact List.mem_cons_of_mem _ (ih hmem)
      · rw [eq_of_mem_spare hmem]
        exact List.mem_append_right _ (List.mem_singleton_self _)

/-- The slots for a token that stands in front of others are not with them. -/
theorem lt_of_ascending (h : Ascending (token :: tokens ++ [finish])) {slot : Slot}
    (hmem : slot ∈ ahead finish tokens ++ spare finish token) :
    token.span.start < slot.token.span.start := by
  refine List.rel_of_pairwise_cons h ?_
  rcases List.mem_append.mp hmem with hmem | hmem
  · exact mem_of_mem_ahead hmem
  · rw [eq_of_mem_spare hmem]
    exact List.mem_append_right _ (List.mem_singleton_self _)

theorem start_le_finish (h : Ascending (tokens ++ [finish])) {slot : Slot}
    (hmem : slot ∈ ahead finish tokens) : slot.token.span.start ≤ finish.span.start := by
  rcases List.mem_append.mp (mem_of_mem_ahead hmem) with hmem | hmem
  · exact Nat.le_of_lt ((List.pairwise_append.mp h).2.2 _ hmem _ (List.mem_singleton_self _))
  · exact Nat.le_of_eq (by rw [List.mem_singleton.mp hmem])

theorem ahead_pairwise (h : Ascending (tokens ++ [finish])) :
    (ahead finish tokens).Pairwise fun a b => a.token.span.start ≤ b.token.span.start := by
  induction tokens with
  | nil => exact List.pairwise_singleton _ _
  | cons token tokens ih =>
      have hspare : (spare finish token).Pairwise fun a b =>
          a.token.span.start ≤ b.token.span.start := by
        rw [spare]
        split
        · exact List.pairwise_singleton _ _
        · exact .nil
      have hrest := List.pairwise_append.mpr ⟨ih h.tail, hspare, fun a ha b hb => by
        rw [eq_of_mem_spare hb]
        exact start_le_finish h.tail ha⟩
      have hle (slot : Slot) (hslot : slot ∈ ahead finish tokens ++ spare finish token) :=
        Nat.le_of_lt (lt_of_ascending h hslot)
      exact .cons (List.forall_mem_cons.mpr ⟨Nat.le_refl _, hle⟩) (.cons hle hrest)

/-- The slots for what has the place `span`. -/
def slotsAt (span : Span) (slots : List Slot) : List Slot :=
  slots.filter fun slot => slot.token.span = span

@[simp] theorem slotsAt_cons (span : Span) (slot : Slot) (slots : List Slot) :
    slotsAt span (slot :: slots) =
      if slot.token.span = span then slot :: slotsAt span slots else slotsAt span slots := by
  simp [slotsAt, List.filter_cons]

@[simp] theorem slotsAt_append (span : Span) (slots slots' : List Slot) :
    slotsAt span (slots ++ slots') = slotsAt span slots ++ slotsAt span slots' :=
  List.filter_append ..

theorem slotsAt_eq_nil {span : Span} {slots : List Slot}
    (h : ∀ slot ∈ slots, slot.token.span ≠ span) : slotsAt span slots = [] :=
  List.filter_eq_nil_iff.mpr fun slot hmem => by simpa using h slot hmem

theorem Ascending.span_ne {t u : Token} (h : t.span.start < u.span.start) : t.span ≠ u.span :=
  fun heq => Nat.lt_irrefl _ (heq ▸ h)

theorem slotsAt_ahead (h : Ascending (tokens ++ [finish])) (ht : token ∈ tokens) :
    slotsAt token.span (ahead finish tokens) = [⟨token, .upcoming⟩, ⟨token, .current⟩] := by
  induction tokens with
  | nil => cases ht
  | cons u tokens ih =>
      rcases List.mem_cons.mp ht with rfl | hmem
      · have hrest : slotsAt token.span (ahead finish tokens ++ spare finish token) = [] :=
          slotsAt_eq_nil fun slot hslot => (Ascending.span_ne (lt_of_ascending h hslot)).symm
        rw [ahead, slotsAt_cons, slotsAt_cons, hrest, if_pos rfl, if_pos rfl]
      · have hne := Ascending.span_ne (List.rel_of_pairwise_cons h (List.mem_append_left _ hmem))
        have hspare : slotsAt token.span (spare finish u) = [] := by
          refine slotsAt_eq_nil fun slot hslot => ?_
          rw [eq_of_mem_spare hslot]
          have hlt := (List.pairwise_append.mp h.tail).2.2 _ hmem _ (List.mem_singleton_self _)
          exact (Ascending.span_ne hlt).symm
        rw [ahead, slotsAt_cons, slotsAt_cons, if_neg hne, if_neg hne, slotsAt_append, hspare,
          ih h.tail hmem, List.append_nil]

theorem length_slotsAt_finish (h : Ascending (tokens ++ [finish])) :
    (slotsAt finish.span (ahead finish tokens)).length =
      1 + tokens.countP fun t => t.kind = .leftBrace := by
  induction tokens with
  | nil => simp [ahead, slotsAt]
  | cons token tokens ih =>
      have hne : token.span ≠ finish.span :=
        Ascending.span_ne (List.rel_of_pairwise_cons h (List.mem_append_right _ List.mem_cons_self))
      have hspare : (slotsAt finish.span (spare finish token)).length =
          if token.kind = .leftBrace then 1 else 0 := by
        rw [spare]
        split <;> simp [slotsAt]
      rw [ahead, slotsAt_cons, slotsAt_cons, if_neg hne, if_neg hne, slotsAt_append,
        List.length_append, ih h.tail, hspare, List.countP_cons, Nat.add_assoc]
      simp

/-! ## Errors in slots -/

variable {errors : List SyntaxError} {slots : List Slot}

def errorsAt (span : Span) (errors : List SyntaxError) : List SyntaxError :=
  errors.filter fun error => error.span = span

theorem Fills.at (h : Fills errors slots) (span : Span) :
    Fills (errorsAt span errors) (slotsAt span slots) := by
  obtain ⟨filled, hsub, htakes⟩ := h
  refine ⟨slotsAt span filled, hsub.filter _, List.rel_filter (fun error slot h => ?_) htakes⟩
  simp [SyntaxError.span, h.blamed]

theorem Fills.length_le (h : Fills errors slots) : errors.length ≤ slots.length := by
  obtain ⟨filled, hsub, htakes⟩ := h
  rw [htakes.length_eq]
  exact hsub.length_le

theorem Fills.map_blamed (h : Fills errors slots) :
    (errors.map SyntaxError.blamed).Sublist (slots.map Slot.token) := by
  obtain ⟨filled, hsub, htakes⟩ := h
  have hblamed : errors.map SyntaxError.blamed = filled.map Slot.token := by
    rw [← List.forall₂_eq_eq_eq, List.forall₂_map_left_iff, List.forall₂_map_right_iff]
    exact htakes.imp fun _ _ h => h.blamed
  rw [hblamed]
  exact hsub.map _

/-- The first of two errors in two slots takes the first one. -/
theorem Fills.pair {a b : Slot} {first second : SyntaxError} (h : Fills [first, second] [a, b]) :
    first.Takes a ∧ second.Takes b := by
  obtain ⟨filled, hsub, htakes⟩ := h
  obtain rfl := hsub.eq_of_length htakes.length_eq.symm
  simpa using htakes

end ClosureLang
