import Vmecs.Proto.Common

/-!
# Ports as text (`proto/common.c`)

What `target_id_parse` does with the text of a port. It takes every text that begins with a number,
whatever the number is and whatever stands behind it, and then a text of white space, for which
`sscanf` does not give 0 but `EOF`. So it treats a text as one should (`PortValidated`) when that is
the text of a port, or when it is refused (`portValidated_iff`).
-/

namespace Vmecs

/-- The text of a port: a decimal number that fits in 16 bits. -/
def IsPortText (service : CString) : Prop :=
  service.1 ≠ [] ∧ (∀ c ∈ service.1, isDigit c) ∧ decimal service.1 ≤ 65535

/-- The text of the port is validated: a target is returned exactly for a number that is a port, and
has this port. -/
structure PortValidated (I : Inet) (unset : ℤ) (node service : CString) : Prop where
  returned_iff : (∃ target, targetIdParse I unset node service = some target) ↔ IsPortText service
  port_eq : ∀ target, targetIdParse I unset node service = some target →
    target.port.toNat = decimal service.1

variable {service : CString}

/-- Only a text without a number is refused. -/
theorem targetIdParse_eq_none_iff (I : Inet) (unset : ℤ) (node : CString) :
    targetIdParse I unset node service = none ↔ sscanfD service = .mismatch := by
  rw [targetIdParse]
  cases sscanfD service <;> simp

/-- The text of a port is parsed. -/
theorem targetIdParse_of_isPortText (I : Inet) (unset : ℤ) (node : CString)
    (h : IsPortText service) :
    ∃ target, targetIdParse I unset node service = some target ∧
      target.port.toNat = decimal service.1 := by
  obtain ⟨hne, hdigits, hle⟩ := h
  have hscan := sscanfD_digits hne hdigits (by omega)
  have hport : (UInt16.ofNat (decimal service.1)).toNat = decimal service.1 := by
    rw [UInt16.toNat_ofNat']
    omega
  rw [← hport] at hscan
  exact ⟨_, targetIdParse_of_stored I unset node hscan, hport⟩

/-- It begins with a number, so it is not refused. -/
theorem IsPortText.startsWithNumber (h : IsPortText service) : StartsWithNumber service := by
  obtain ⟨hne, hdigits, -⟩ := h
  obtain ⟨d, rest, hcons⟩ := List.exists_cons_of_ne_nil hne
  exact ⟨[], [], d, rest, hcons, List.forall_mem_nil _, .inl rfl,
    hdigits d (hcons ▸ List.mem_cons_self)⟩

/-- **When the text of a port is validated**: it is the text of a port, or there is something in it
and it does not begin with a number. -/
theorem portValidated_iff (I : Inet) (unset : ℤ) (node service : CString) :
    PortValidated I unset node service ↔
      IsPortText service ∨ (¬IsBlankText service ∧ ¬StartsWithNumber service) := by
  rw [← sscanfD_eq_mismatch_iff]
  constructor
  · intro h
    by_cases hport : IsPortText service
    · exact .inl hport
    · -- what is not the text of a port has to be refused
      refine .inr ((targetIdParse_eq_none_iff I unset node).1 ?_)
      exact Option.eq_none_iff_forall_ne_some.2 fun target htarget ↦
        hport (h.returned_iff.1 ⟨target, htarget⟩)
  · rintro (hport | hmismatch)
    · obtain ⟨target, htarget, heq⟩ := targetIdParse_of_isPortText I unset node hport
      refine ⟨iff_of_true ⟨target, htarget⟩ hport, fun target' htarget' ↦ ?_⟩
      obtain rfl := Option.some.inj (htarget.symm.trans htarget')
      exact heq
    · have hnone := (targetIdParse_eq_none_iff I unset node).2 hmismatch
      have hno : ∀ target, targetIdParse I unset node service ≠ some target := by simp [hnone]
      refine ⟨iff_of_false (fun ⟨target, h⟩ ↦ hno target h) fun h ↦ ?_,
        fun target h ↦ absurd h (hno target)⟩
      exact ((sscanfD_eq_mismatch_iff service).1 hmismatch).2 h.startsWithNumber

/-- Functions that know no text of an address, so that every node is a name. -/
def namesOnly : Inet where
  ntop4 _ := cstr []
  ntop6 _ := cstr []
  pton4 _ := none
  pton6 _ := none

/-- The empty text and `65536`: both give a target, with the port that the variable happened to hold
and with port 0. -/
theorem not_portValidated_empty :
    targetIdParse namesOnly 7 (cstr [104]) (cstr []) = some ⟨.domain (cstr [104]), 7⟩ ∧
      targetIdParse namesOnly 7 (cstr [104]) (cstr [54, 53, 53, 51, 54]) =
        some ⟨.domain (cstr [104]), 0⟩ ∧
      ¬PortValidated namesOnly 7 (cstr [104]) (cstr []) ∧
      ¬PortValidated namesOnly 7 (cstr [104]) (cstr [54, 53, 53, 51, 54]) := by
  refine ⟨rfl, rfl, fun h ↦ ?_, fun h ↦ ?_⟩
  · exact (h.returned_iff.1 ⟨_, rfl⟩).1 rfl
  · exact absurd (h.returned_iff.1 ⟨_, rfl⟩).2.2 (by decide)

end Vmecs
