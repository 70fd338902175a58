import Vaiexia.Api.Server

/-!
# Job events and job status

A task sends the terminal status of its job first and stores it afterwards, in a critical section of
its own.  What is said here of a status that was sent begins with its storing.
-/

namespace Vaiexia.Api.Registry

open Vaiexia.Auth Vaiexia.Backend

section Events

variable {ι : Type} [DecidableEq ι] {ids : ι → String} {r r' : Registry ι} {i : ι} {s : JobStatus}
  {result : Except Diagnostic Unit}

omit [DecidableEq ι] in
/-- A terminal status that was sent is that of a job whose task has come that far. -/
theorem Inv.mem_stream (h : Inv ids r) (hs : s ∈ r.stream) (hterminal : s.state ≠ .running) :
    ∃ i result, s = terminalStatus (ids i) result ∧
      (r.phase i = .finished result ∨ r.phase i = .stored result) := by
  have hcompleted : s ∈ r.completed.flatMap (pair ids) → ∃ i result,
      s = terminalStatus (ids i) result ∧
        (r.phase i = .finished result ∨ r.phase i = .stored result) := by
    intro hmem
    obtain ⟨⟨i, result⟩, hjob, hpair⟩ := List.mem_flatMap.mp hmem
    rcases List.mem_pair.mp hpair with rfl | rfl
    · exact absurd rfl hterminal
    · exact ⟨i, result, rfl, .inr ((h.completed i result).mp hjob)⟩
  cases hrunning : r.inner.running with
  | none =>
      rw [h.quiet hrunning] at hs
      exact hcompleted hs
  | some id =>
      obtain ⟨i, -, hactive⟩ := h.holder id hrunning
      rw [h.stream i hactive] at hs
      rcases List.mem_append.mp hs with hs | hs
      · exact hcompleted hs
      · cases hphase : r.phase i with
        | idle | busy | accepted => simp [hphase, sent] at hs
        | announced | spawned =>
            simp only [hphase, sent, List.mem_singleton] at hs
            exact absurd (congrArg JobStatus.state hs) hterminal
        | finished result | stored result =>
            simp only [hphase, sent] at hs
            rcases List.mem_pair.mp hs with rfl | rfl
            · exact absurd rfl hterminal
            · exact ⟨i, result, rfl, by simp [hphase]⟩

/-- A job that is stored stays stored. -/
theorem Run.stored (hids : Function.Injective ids) (hrun : Run ids new r) (hlater : Run ids r r')
    (hi : r.phase i = .stored result) : r'.phase i = .stored result := by
  have hmem := ((hrun.inv hids).completed i result).mpr hi
  have hinv : Inv ids r' := Run.inv hids (hrun.trans hlater)
  exact (hinv.completed i result).mp (hlater.completed_prefix.subset hmem)

/-- The result that was sent is the one that is stored. -/
theorem Run.finished (hlater : Run ids r r') (hi : r.phase i = .finished result) :
    r'.phase i = .finished result ∨ r'.phase i = .stored result := by
  induction hlater with
  | refl => exact .inl hi
  | @tail t t' _ hmove ih =>
      obtain ⟨j, hstep⟩ := hmove
      by_cases hne : i = j
      · subst hne
        cases hstep <;> simp_all
      · rw [hstep.phase_of_ne hne]
        exact ih

/-- **What follows on a terminal status.**  A terminal status that was sent, whatever calls and
tasks do in between, is that of one job, whose task has stored it or has nothing else to do.  From
its storing on the status is what everybody gets who asks, until 64 later jobs have completed, and
nothing afterwards; and whoever is told that the slot is taken is told so because of another job. -/
theorem status_of_sent (hids : Function.Injective ids) (hrun : Run ids new r) (hs : s ∈ r.stream)
    (hterminal : s.state ≠ .running) :
    ∃ i, s.id = ids i ∧
      ((∃ result, r.phase i = .stored result) ∨
        ∃ r' result, Step ids i r r' ∧ r'.phase i = .stored result) ∧
      ∀ r' result, Run ids r r' → r'.phase i = .stored result → ∀ r'', Run ids r' r'' →
        (∃ before later, r''.completed = before ++ (i, result) :: later ∧
          r''.inner.status s.id = if later.length < 64 then some s else none) ∧
        r''.inner.running ≠ some s.id ∧
        ∀ id, (r''.inner.tryStart id).2 = .error .busy →
          ∃ j, j ≠ i ∧ (r''.phase j).Active ∧ r''.inner.running = some (ids j) := by
  obtain ⟨i, result, rfl, hphase⟩ := (hrun.inv hids).mem_stream hs hterminal
  refine ⟨i, rfl, ?_, ?_⟩
  · rcases hphase with hi | hi
    · exact .inr ⟨_, result, .store hi, by simp⟩
    · exact .inl ⟨result, hi⟩
  · intro r' result' hlater hstored r'' hlater'
    -- what is stored is what was sent
    obtain rfl : result = result' := by
      rcases hphase with hi | hi
      · rcases hlater.finished hi with hi' | hi'
        · cases hi'.symm.trans hstored
        · exact JobPhase.stored.inj (hi'.symm.trans hstored)
      · exact JobPhase.stored.inj ((hrun.stored hids hlater hi).symm.trans hstored)
    have hrun' : Run ids new r' := hrun.trans hlater
    have hrun'' : Run ids new r'' := hrun'.trans hlater'
    have h := hrun''.inv hids
    have hi := hrun'.stored hids hlater' hstored
    have hslot : ∀ j, ids j = ids i → ¬ (r''.phase j).Active := by
      intro j hj hactive
      obtain rfl := hids hj
      rw [hi] at hactive
      exact hactive
    refine ⟨?_, ?_, ?_⟩
    · obtain ⟨before, later, hsplit⟩ := List.append_of_mem ((h.completed i result).mpr hi)
      exact ⟨before, later, hsplit, h.status_completed hids hsplit⟩
    · intro hrunning
      obtain ⟨j, hj, hactive⟩ := h.holder _ hrunning
      exact hslot j hj hactive
    · intro id hbusy
      cases hrunning : r''.inner.running with
      | none => simp [RegistryInner.tryStart, hrunning] at hbusy
      | some id' =>
          obtain ⟨j, rfl, hactive⟩ := h.holder _ hrunning
          refine ⟨j, ?_, hactive, rfl⟩
          rintro rfl
          exact hslot j rfl hactive

end Events

/-- The terminal status of a job is sent, and the job is running for whoever asks and keeps others
out. -/
theorem running_after_sent :
    ∃ r : Registry Bool, Run twoIds new r ∧
      terminalStatus (twoIds true) (.ok ()) ∈ r.stream ∧
      r.inner.status (twoIds true) = some (initialStatus (twoIds true)) ∧
      (r.inner.tryStart (twoIds false)).2 = .error .busy := by
  exact ⟨_, (((Relation.ReflTransGen.single ⟨true, .accept rfl rfl⟩).tail
    ⟨true, .announce rfl⟩).tail ⟨true, .spawn rfl⟩).tail ⟨true, .finish (.ok ()) rfl⟩,
    List.mem_append_right _ (List.mem_singleton.mpr rfl), rfl, rfl⟩

/-- A job that has succeeded is asked for while the next one runs. -/
theorem status_of_sent_succeeded :
    ∃ r : Registry Bool, Run twoIds new r ∧
      r.inner.status (twoIds true) = some (terminalStatus (twoIds true) (.ok ())) ∧
      (r.inner.tryStart (twoIds true)).2 = .error .busy ∧
      r.inner.running = some (twoIds false) := by
  have hrun : Run twoIds (new : Registry Bool) _ :=
    ((((Relation.ReflTransGen.single ⟨true, .accept rfl rfl⟩).tail
      ⟨true, .announce rfl⟩).tail ⟨true, .spawn rfl⟩).tail ⟨true, .finish (.ok ()) rfl⟩).tail
      ⟨true, .store rfl⟩
  obtain ⟨i, hi, -, hall⟩ := status_of_sent twoIds_injective hrun
    (s := terminalStatus (twoIds true) (.ok ()))
    (List.mem_append_right _ (List.mem_singleton.mpr rfl)) nofun
  obtain rfl : true = i := twoIds_injective hi
  obtain ⟨⟨before, later, hsplit, hstatus⟩, -, -⟩ := hall _ (.ok ()) .refl rfl _
    (.single ⟨false, .accept rfl rfl⟩)
  have hlater : later = [] := by
    have hlen : 1 = (before ++ (true, Except.ok ()) :: later).length := congrArg List.length hsplit
    rw [List.length_append, List.length_cons] at hlen
    exact List.eq_nil_of_length_eq_zero (by omega)
  subst hlater
  exact ⟨_, hrun.tail ⟨false, .accept rfl rfl⟩, hstatus, rfl, rfl⟩

end Vaiexia.Api.Registry
