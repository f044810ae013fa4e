import ChipEight.Proofs.Checked.Simulation
/-!
# No check fails

The checked virtual machine is switched on in order and stays so, whatever it is asked to do, and
so does a machine without a virtual machine around it.  No index or range leaves its array, and no
number leaves its type: `no_trap`.
-/

namespace ChipEight.Checked

open Program

variable {σ : Type}

namespace Rig

/-- Some calls lead to the rig from one that was switched on. -/
def Reachable (r : Rig σ) : Prop :=
  ∃ config stream devices calls,
    (performAll calls).run (start config stream devices) = .done true r

/-- Every session has a rig that stands for it. -/
theorem exists_rig_of_reachable {s : Session σ} (reached : s.Reachable) :
    ∃ r : Rig σ, r.Reachable ∧ r.view = s := by
  obtain ⟨config, stream, devices, calls, performed⟩ := reached
  obtain ⟨r, -, ran⟩ := performAll_follows calls (sound_start config stream devices)
  rw [view_start, performed] at ran
  exact ⟨r, ⟨config, stream, devices, calls, ran.1⟩, ran.2⟩

theorem sound_of_reachable {r : Rig σ} (reached : r.Reachable) : r.Sound := by
  obtain ⟨config, stream, devices, calls, performed⟩ := reached
  obtain ⟨r', sound, ran⟩ := performAll_follows calls (sound_start config stream devices)
  split at ran
  · rw [performed] at ran
    cases ran.1
    exact sound
  · rw [performed] at ran
    cases ran

end Rig

/-- **No check fails.**  Calls on a virtual machine that was switched on, with any devices, come
out on the checked one as they do on the virtual machine itself, a run that does not end included;
and at every point the stack can be read.  Calls on a machine alone, with any opcodes and with the
program counter and `I` anywhere, are answered by the checked programs as by the machine.  So none
of these ever falls into a trap. -/
theorem no_trap :
    (∀ (config : Config) (stream : Random) (devices : σ) (calls : List (Call σ)),
      ∃ r : Rig σ,
        match (Session.start config stream devices).performAll calls with
        | some s =>
          (Rig.performAll calls).run (Rig.start config stream devices) = .done true r ∧
            r.view = s ∧ Bench.stack.run r.bench = .done s.vm.machine.stack.toList r.bench
        | none =>
          (Rig.performAll calls).run (Rig.start config stream devices) = .done false r) ∧
    (∀ (stream : Random) (world : World σ) (calls : List (Service σ)),
      ∃ st : Store,
        (Bench.serveAll calls).run ⟨.initial stream, world⟩ =
          .done (Service.allOnMachine (.initial stream) world calls).1
            ⟨st, (Service.allOnMachine (.initial stream) world calls).2.2⟩ ∧
        st.view = (Service.allOnMachine (.initial stream) world calls).2.1) := by
  constructor
  · intro config stream devices calls
    obtain ⟨r, sound, ran⟩ :=
      Rig.performAll_follows calls (Rig.sound_start config stream devices)
    rw [Rig.view_start] at ran
    refine ⟨r, ?_⟩
    cases performed : (Session.start config stream devices).performAll calls with
    | none =>
      rw [performed] at ran
      exact ran
    | some s =>
      rw [performed] at ran
      obtain ⟨ran, rfl⟩ := ran
      exact ⟨ran, rfl, Bench.run_stack sound.store⟩
  · intro stream world calls
    obtain ⟨st, ran, -, view⟩ := Bench.serveAll_follows calls
      (b := ⟨.initial stream, world⟩) (Store.sound_initial stream)
    simp only [Store.view_initial] at ran view
    exact ⟨st, ran, view⟩

end ChipEight.Checked
