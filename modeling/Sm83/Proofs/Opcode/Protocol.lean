import Sm83.Proofs.Opcode.Completion

/-!
# The protocol of stepping

However the cycles of an opcode are called for, the calls that are accepted are whole blocks, each
numbered from one up to the cycle that completes the instruction, and at most the beginning of one
further block. The calls that are refused might as well not have been made. A block does what it
would do with an activation of its own, so nothing of an earlier one is left in it.
-/

namespace Sm83

namespace Session

variable {μ : Type} [Memory μ] {opcode : Opcode}

/-- The session with an activation in which nothing was stepped. -/
def afresh (session : Session μ) : Session μ := { session with activation := {} }

/-- Call for blocks of cycles of the given lengths, each numbered from one and with an activation of
its own. -/
def blocks (session : Session μ) (opcode : Opcode) (lengths : List Nat) : Session μ :=
  lengths.foldl (fun session length => session.afresh.calls opcode (List.range' 1 length)) session

/-- The length of a block that was begun, if one was. -/
def unfinished (begun : Nat) : List Nat := if begun = 0 then [] else [begun]

/-- Where a session has come to since its start: the lengths of the blocks that were completed, and
the number of cycles that were made of the one that was begun. -/
structure Parsed (start session : Session μ) (opcode : Opcode) (complete : List Nat)
    (begun : Nat) : Prop where
  /-- Every completed block has a cycle. -/
  positive : ∀ length ∈ complete, 0 < length
  /-- The block that was begun has a further cycle. -/
  ongoing : begun < opcode.lastCycle
  /-- The activation has noted the cycles of the block that was begun. -/
  noted : session.activation.made = begun
  /-- The accepted calls are the blocks. -/
  grouped : session.accepted = complete.flatMap (completing 0) ++ Session.ongoing 0 begun
  /-- The accepted calls alone do the same. -/
  replayed : start.calls opcode (session.accepted.map Prod.fst) =
    { session with answers := session.accepted }
  /-- The blocks with activations of their own do the same. -/
  renewed : start.blocks opcode (complete ++ unfinished begun) =
    { session with answers := session.accepted }

/-! ## One call -/

/-- A call either is accepted or changes nothing but the record of answers. -/
theorem call_cases (session : Session μ) (defined : opcode.instruction ≠ .invalid)
    (storable : opcode.instruction.storesImmediate = false) (cycle : Nat) :
    (session.activation.violation opcode.lastCycle cycle = none ∧
        ∃ progress, (session.call opcode cycle).answers =
          session.answers ++ [(cycle, .ok progress)]) ∨
      ∃ violation, session.call opcode cycle =
        { session with
          answers := session.answers ++ [(cycle, .error (opcode.misstep cycle violation))] } := by
  cases refused : session.activation.violation opcode.lastCycle cycle with
  | some violation => exact .inr ⟨violation, session.call_of_violation refused⟩
  | none => exact .inl ⟨rfl, _, (session.call_of_due defined (fun _ => storable) refused).1⟩

/-- What a call does does not depend on the record of answers. -/
theorem call_with_answers {session : Session μ} {cycle : Nat} {outcome : Except Fault Progress}
    (answered : (session.call opcode cycle).answers = session.answers ++ [(cycle, outcome)])
    (answers : List (Nat × Except Fault Progress)) :
    { session with answers }.call opcode cycle =
      { session.call opcode cycle with answers := answers ++ [(cycle, outcome)] } := by
  have same : ((opcode.step cycle session.activation session.regs).exec
      session.memory).value.outcome = outcome := by
    simpa [call] using answered
  simp only [call, same]

/-- A first cycle that is due finds nothing of what was stepped before. -/
theorem call_afresh (session : Session μ)
    (due : session.activation.violation opcode.lastCycle 1 = none) :
    session.afresh.call opcode 1 = session.call opcode 1 := by
  simp only [call, afresh, Opcode.step_first_of_due session.regs due]

/-- Blocks can be made in two parts. -/
theorem blocks_append (session : Session μ) (opcode : Opcode) (first second : List Nat) :
    session.blocks opcode (first ++ second) =
      (session.blocks opcode first).blocks opcode second := List.foldl_append

/-- A block that is one longer makes one call more. -/
theorem blocks_succ (start : Session μ) (opcode : Opcode) (complete : List Nat) (begun : Nat)
    (due : (start.blocks opcode (complete ++ unfinished begun)).activation.violation
      opcode.lastCycle (begun + 1) = none) :
    start.blocks opcode (complete ++ [begun + 1]) =
      (start.blocks opcode (complete ++ unfinished begun)).call opcode (begun + 1) := by
  rw [blocks_append]
  by_cases fresh : begun = 0
  · subst fresh
    have empty : complete ++ unfinished 0 = complete := List.append_nil complete
    rw [empty] at due ⊢
    exact (start.blocks opcode complete).call_afresh due
  · have one : unfinished begun = [begun] := if_neg fresh
    rw [one, blocks_append]
    have longer := (start.blocks opcode complete).afresh.calls_range'_succ opcode 1 begun
    rw [Nat.add_comm 1 begun] at longer
    exact longer

/-! ## Whole sessions -/

variable {start session : Session μ} {complete : List Nat} {begun : Nat}

/-- A session that has made no call and is in the middle of nothing has come to no block. -/
theorem parsed_start (unanswered : start.answers = []) (ready : start.activation.made = 0) :
    Parsed start start opcode [] 0 := by
  have unaccepted : start.accepted = [] := by rw [accepted, unanswered, List.filter_nil]
  have same : ({ start with answers := [] } : Session μ) = start := by rw [← unanswered]
  refine ⟨by simp, opcode.lastCycle_pos, ready, unaccepted, ?_, ?_⟩
  · rw [unaccepted, same]
    rfl
  · rw [unaccepted, same]
    rfl

/-- A call that is refused leaves a session where it had come to. -/
theorem Parsed.refused (parsed : Parsed start session opcode complete begun) {cycle : Nat}
    {fault : Fault} :
    Parsed start { session with answers := session.answers ++ [(cycle, .error fault)] } opcode
      complete begun := by
  have same : ({ session with answers := session.answers ++ [(cycle, .error fault)] } :
      Session μ).accepted = session.accepted := by
    unfold accepted
    rw [List.filter_append]
    exact List.append_nil _
  exact
    { positive := parsed.positive
      ongoing := parsed.ongoing
      noted := parsed.noted
      grouped := same.trans parsed.grouped
      replayed := by rw [same]; exact parsed.replayed
      renewed := by rw [same]; exact parsed.renewed }

/-- A call that is accepted makes one more cycle of the block that was begun, or completes it. -/
theorem Parsed.accept (parsed : Parsed start session opcode complete begun)
    (defined : opcode.instruction ≠ .invalid)
    (storable : opcode.instruction.storesImmediate = false)
    (due : session.activation.violation opcode.lastCycle (begun + 1) = none) :
    ∃ complete' begun', Parsed start (session.call opcode (begun + 1)) opcode complete' begun' := by
  obtain ⟨answered, noted, -⟩ := session.call_of_due defined (fun _ => storable) due
  have extended := accepted_of_ok answered
  have replayed : start.calls opcode
      ((session.call opcode (begun + 1)).accepted.map Prod.fst) =
        { session.call opcode (begun + 1) with
          answers := (session.call opcode (begun + 1)).accepted } := by
    rw [extended, List.map_append, calls_append, parsed.replayed]
    exact call_with_answers answered _
  have renewed : start.blocks opcode (complete ++ [begun + 1]) =
      { session.call opcode (begun + 1) with
        answers := (session.call opcode (begun + 1)).accepted } := by
    have again : (start.blocks opcode (complete ++ unfinished begun)).activation.violation
        opcode.lastCycle (begun + 1) = none := by
      rw [parsed.renewed]
      exact due
    rw [blocks_succ start opcode complete begun again, parsed.renewed, extended]
    exact call_with_answers answered _
  cases progress : opcode.instruction.progress (begun + 1) session.regs with
  | running =>
    rw [progress] at noted extended
    have length := Opcode.length_cycles_eq_lastCycle defined
    have further := Instruction.ne_length_of_running progress
    have bound := (Activation.violation_eq_none_iff_made.mp due).2
    refine ⟨complete, begun + 1, parsed.positive, by omega, by rw [noted]; rfl, ?_, replayed,
      renewed⟩
    rw [extended, parsed.grouped, ongoing_concat, Nat.zero_add, List.append_assoc]
  | retired =>
    rw [progress] at noted extended
    refine ⟨complete ++ [begun + 1], 0, ?_, opcode.lastCycle_pos, by rw [noted]; rfl, ?_, replayed,
      ?_⟩
    · intro length listed
      rcases List.mem_append.mp listed with earlier | last
      · exact parsed.positive length earlier
      · rw [List.mem_singleton.mp last]
        exact Nat.succ_pos begun
    · have whole : completing 0 (begun + 1) =
          Session.ongoing 0 begun ++ [(begun + 1, .ok .retired)] := rfl
      rw [extended, parsed.grouped, List.flatMap_append, List.append_assoc, List.flatMap_singleton,
        whole]
      exact (List.append_nil _).symm
    · have ended : complete ++ [begun + 1] ++ unfinished 0 = complete ++ [begun + 1] :=
        List.append_nil _
      rw [ended]
      exact renewed

/-- A call brings a session on by at most one cycle. -/
theorem Parsed.call (parsed : Parsed start session opcode complete begun)
    (defined : opcode.instruction ≠ .invalid)
    (storable : opcode.instruction.storesImmediate = false) (cycle : Nat) :
    ∃ complete' begun', Parsed start (session.call opcode cycle) opcode complete' begun' := by
  rcases session.call_cases defined storable cycle with ⟨due, -⟩ | ⟨violation, unchanged⟩
  · obtain ⟨next, -⟩ := Activation.violation_eq_none_iff_made.mp due
    rw [parsed.noted] at next
    subst next
    exact parsed.accept defined storable due
  · rw [unchanged]
    exact ⟨complete, begun, parsed.refused⟩

/-- Whatever calls are made, a session is parsed. -/
theorem Parsed.calls (parsed : Parsed start session opcode complete begun)
    (defined : opcode.instruction ≠ .invalid)
    (storable : opcode.instruction.storesImmediate = false) (cycles : List Nat) :
    ∃ complete' begun', Parsed start (session.calls opcode cycles) opcode complete' begun' := by
  induction cycles generalizing session complete begun with
  | nil => exact ⟨complete, begun, parsed⟩
  | cons cycle cycles ih =>
    obtain ⟨complete, begun, next⟩ := parsed.call defined storable cycle
    exact ih next

/-- Whatever calls are made of an opcode that has a behaviour and stores to no byte after it, from
an activation that is fresh or complete: the accepted ones are whole blocks and the beginning of one
that can be completed, and do what the blocks do with activations of their own; every other call
changes nothing but the record of answers; and the accepted ones alone do the same. -/
theorem follows_protocol (defined : opcode.instruction ≠ .invalid)
    (storable : opcode.instruction.storesImmediate = false) {activation : Activation}
    (ready : activation = {} ∨ activation.retired = true) (regs : RegisterFile) {μ : Type}
    [Memory μ] (memory : μ) (cycles : List Nat) :
    let start : Session μ := { activation, regs, memory }
    let final := start.calls opcode cycles
    (∃ complete begun,
      (∀ length ∈ complete, 0 < length) ∧
        final.accepted = complete.flatMap (completing 0) ++ Session.ongoing 0 begun ∧
        (∃ last, begun < last ∧
          (final.calls opcode (List.range' (begun + 1) (last - begun))).answers =
            final.answers ++ completing begun last) ∧
        start.blocks opcode (complete ++ unfinished begun) =
          { final with answers := final.accepted }) ∧
    (∀ before cycle after, cycles = before ++ cycle :: after →
      let session := start.calls opcode before
      (∃ progress, (session.call opcode cycle).answers =
          session.answers ++ [(cycle, .ok progress)]) ∨
        ∃ violation, session.call opcode cycle =
          { session with
            answers := session.answers ++ [(cycle, .error (opcode.misstep cycle violation))] }) ∧
    start.calls opcode (final.accepted.map Prod.fst) =
      { final with answers := final.accepted } := by
  intro start final
  have fresh : start.activation.made = 0 := by
    rcases ready with rfl | retired
    · rfl
    · exact if_pos retired
  obtain ⟨complete, begun, parsed⟩ : ∃ complete begun,
      Parsed start final opcode complete begun :=
    (parsed_start rfl fresh).calls defined storable cycles
  refine ⟨⟨complete, begun, parsed.positive, parsed.grouped, ?_, parsed.renewed⟩, ?_,
    parsed.replayed⟩
  · have due : final.activation.violation opcode.lastCycle (begun + 1) = none := by
      rw [Activation.violation_eq_none_iff_made, parsed.noted]
      exact ⟨rfl, parsed.ongoing⟩
    have positive := Instruction.remaining_pos (Opcode.unfinished_of_due defined due) final.regs
    have answers := (final.calls_completing defined storable due).1
    refine ⟨begun + opcode.instruction.remaining begun final.regs, by omega, ?_⟩
    rw [Nat.add_sub_cancel_left]
    exact answers
  · intro before cycle after _ session
    rcases session.call_cases defined storable cycle with ⟨-, accepted⟩ | refused
    · exact .inl accepted
    · exact .inr refused

/-- Of seven calls in disorder, three are accepted: a relative jump that is not taken, and the
beginning of another. -/
theorem protocol_of_untaken_jump :
    let opcode : Opcode := ⟨⟨0x20, false⟩, .jr (some .nz)⟩
    let start : Session Ram :=
      { activation := ⟨3, true, {}⟩, regs := { f := { z := true } }, memory := .zero }
    let final := start.calls opcode [2, 1, 1, 0, 2, 3, 1]
    (opcode.instruction ≠ .invalid ∧ opcode.instruction.storesImmediate = false ∧
        start.activation.retired = true) ∧
      final.accepted.map Prod.fst = [1, 2, 1] ∧
      start.calls opcode [1, 2, 1] = { final with answers := final.accepted } := by
  intro opcode start final
  have cycles : final.accepted.map Prod.fst = [1, 2, 1] := by decide +kernel
  have followed := @follows_protocol opcode (by decide) rfl start.activation (.inr rfl) start.regs
    Ram _ start.memory [2, 1, 1, 0, 2, 3, 1]
  have replayed : start.calls opcode (final.accepted.map Prod.fst) =
      { final with answers := final.accepted } := followed.2.2
  rw [cycles] at replayed
  exact ⟨⟨by decide, rfl, rfl⟩, cycles, replayed⟩

end Session

end Sm83
