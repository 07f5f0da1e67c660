import TriangleTam.Journal

/-! # Reports

  A pass adds reports to the journal, all of its own kind, and takes none
  back. What was clean before a pass that left the journal clean, the pass
  reported nothing about.
-/

namespace TriangleTam

/-- All that was reported between two journals is of the kind. -/
def Journal.Gains (kind : DiagnosticKind) (journal journal' : Journal) : Prop :=
  ∃ new : List Diagnostic, journal'.diagnostics.toList = journal.diagnostics.toList ++ new ∧
    ∀ d ∈ new, d.kind = kind

namespace Journal.Gains

variable {kind : DiagnosticKind} {journal journal' : Journal}

theorem refl (journal : Journal) : journal.Gains kind journal := ⟨[], by simp, by simp⟩

theorem trans {j₁ j₂ j₃ : Journal} (h : j₁.Gains kind j₂) (h' : j₂.Gains kind j₃) :
    j₁.Gains kind j₃ := by
  obtain ⟨new, heq, hnew⟩ := h
  obtain ⟨new', heq', hnew'⟩ := h'
  refine ⟨new ++ new', ?_, ?_⟩
  · rw [heq', heq, List.append_assoc]
  · intro d hd
    rcases List.mem_append.1 hd with hd | hd
    · exact hnew d hd
    · exact hnew' d hd

theorem report (journal : Journal) {d : Diagnostic} (hkind : d.kind = kind) :
    journal.Gains kind (journal.report d) := by
  refine ⟨[d], ?_, ?_⟩
  · simp [Journal.report]
  · intro d' hd
    rw [List.mem_singleton.1 hd, hkind]

/-- Logging reports nothing. -/
theorem of_diagnostics (h : journal'.diagnostics = journal.diagnostics) :
    journal.Gains kind journal' :=
  ⟨[], by simp [h], by simp⟩

theorem size_le (h : journal.Gains kind journal') :
    journal.diagnostics.size ≤ journal'.diagnostics.size := by
  obtain ⟨new, heq, -⟩ := h
  have hlength := congrArg List.length heq
  rw [List.length_append, Array.length_toList, Array.length_toList] at hlength
  omega

theorem clean (h : journal.Gains kind journal') (hclean : journal'.diagnostics = #[]) :
    journal.diagnostics = #[] := by
  obtain ⟨new, heq, -⟩ := h
  rw [hclean] at heq
  exact Array.toList_eq_nil_iff.1 (List.append_eq_nil_iff.1 heq.symm).1

/-- Where nothing was reported before, all reports are of the kind. -/
theorem kind_eq (h : journal.Gains kind journal') (hclean : journal.diagnostics = #[])
    {d : Diagnostic} (hd : d ∈ journal'.diagnostics) : d.kind = kind := by
  obtain ⟨new, heq, hnew⟩ := h
  rw [hclean, List.nil_append] at heq
  exact hnew d (heq ▸ Array.mem_toList_iff.2 hd)

end Journal.Gains

end TriangleTam
