import MemStream.Db.Lemmas.Groups.Read

namespace MemStream
namespace GroupManager

def Inv (buildKey : String → UInt64 → UInt64) (gm : GroupManager) : Prop :=
  ∀ name grp, gm.groups.lookup name = some grp → Group.Inv buildKey name grp

def abs (gm : GroupManager) : Logs :=
  fun name => (gm.groups.lookup name).map (·.log.abs)

theorem inv_new (buildKey : String → UInt64 → UInt64) : Inv buildKey new := by
  intro name grp h
  simp [new] at h

theorem abs_insert (gm : GroupManager) (name : String) (grp : Group)
    : abs { gm with groups := gm.groups.insert name grp } = gm.abs.set name (some grp.log.abs) := by
  funext name'
  simp only [abs, Logs.set, Assoc.lookup_insert]
  split
  . rfl
  . rfl

theorem abs_erase (gm : GroupManager) (name : String)
    : abs { gm with groups := gm.groups.erase name } = gm.abs.set name none := by
  funext name'
  simp only [abs, Logs.set, Assoc.lookup_erase]
  split
  . rfl
  . rfl

variable {buildKey : String → UInt64 → UInt64} {gm : GroupManager}

theorem Inv.insert (h : Inv buildKey gm) {name : String} {grp : Group}
    (hgrp : Group.Inv buildKey name grp)
    : Inv buildKey { gm with groups := gm.groups.insert name grp } := by
  intro name' grp' hlookup
  simp only [Assoc.lookup_insert] at hlookup
  split at hlookup
  . next heq =>
    rw [Option.some.injEq] at hlookup
    rw [heq, ← hlookup]
    exact hgrp
  . exact h name' grp' hlookup

theorem Inv.erase (h : Inv buildKey gm) (name : String)
    : Inv buildKey { gm with groups := gm.groups.erase name } := by
  intro name' grp' hlookup
  simp only [Assoc.lookup_erase] at hlookup
  split at hlookup
  . contradiction
  . exact h name' grp' hlookup

theorem Inv.createGroup_refines (h : Inv buildKey gm) (alloc : Nat → Bool) (name : String)
    : Inv buildKey (gm.createGroup alloc name).2
        ∧ gm.abs.createGroup alloc name
            =
          ((gm.createGroup alloc name).1, (gm.createGroup alloc name).2.abs) := by
  have habs : gm.abs name = (gm.groups.lookup name).map (·.log.abs) := by
    rfl
  unfold GroupManager.createGroup Logs.createGroup
  rw [habs]
  cases gm.groups.lookup name with
  | some grp => exact ⟨h, rfl⟩
  | none =>
    unfold Group.new SegLog.new
    by_cases halloc : (List.range SegLog.initialSegments).all alloc
    . simp only [if_pos halloc, Option.map_none, Outcome.map_ok]
      refine ⟨h.insert (Group.inv_new buildKey name), ?_⟩
      rw [abs_insert, SegLog.abs_empty]
    . simp only [if_neg halloc, Option.map_none, Outcome.map_panic]
      exact ⟨h, trivial⟩

theorem Inv.dropGroup_refines (h : Inv buildKey gm) (name : String)
    : Inv buildKey (gm.dropGroup name).2
        ∧ gm.abs.dropGroup name = ((gm.dropGroup name).1, (gm.dropGroup name).2.abs) := by
  have habs : gm.abs name = (gm.groups.lookup name).map (·.log.abs) := by
    rfl
  unfold GroupManager.dropGroup Logs.dropGroup
  rw [habs]
  cases gm.groups.lookup name with
  | some grp =>
    refine ⟨h.erase name, ?_⟩
    dsimp only [Option.map_some]
    rw [abs_erase]
  | none => exact ⟨h, rfl⟩

theorem Inv.onGroup_refines {α : Type} (h : Inv buildKey gm) {group : String}
    {f : Group → Outcome GroupError α × Group} {g : LogSpec → Outcome LogError α × LogSpec}
    (hf : ∀ grp, Group.Inv buildKey group grp
      → Group.Inv buildKey group (f grp).2
          ∧ (f grp).1 = (g grp.log.abs).1.mapErr .logError
          ∧ (f grp).2.log.abs = (g grp.log.abs).2)
    : Inv buildKey (gm.onGroup group f).2
        ∧ gm.abs.onLog group g = ((gm.onGroup group f).1, (gm.onGroup group f).2.abs) := by
  have habs : gm.abs group = (gm.groups.lookup group).map (·.log.abs) := by
    rfl
  unfold onGroup Logs.onLog
  rw [habs]
  cases hlookup : gm.groups.lookup group with
  | none => exact ⟨h, rfl⟩
  | some grp =>
    have ⟨hinv, hres, hlog⟩ := hf grp (h group grp hlookup)
    refine ⟨h.insert hinv, ?_⟩
    dsimp only [Option.map_some]
    rw [abs_insert, hres, hlog]

theorem Inv.onGroup_frame {α : Type} (h : Inv buildKey gm) {group : String}
    {f : Group → Outcome GroupError α × Group}
    (hf : ∀ grp, Group.Inv buildKey group grp
      → Group.Inv buildKey group (f grp).2 ∧ (f grp).2.log = grp.log)
    : Inv buildKey (gm.onGroup group f).2 ∧ (gm.onGroup group f).2.abs = gm.abs := by
  unfold onGroup
  cases hlookup : gm.groups.lookup group with
  | none => exact ⟨h, rfl⟩
  | some grp =>
    have ⟨hinv, hlog⟩ := hf grp (h group grp hlookup)
    refine ⟨h.insert hinv, ?_⟩
    dsimp only
    rw [abs_insert, hlog]
    funext name
    unfold Logs.set
    split
    . next heq =>
      unfold abs
      rw [heq, hlookup]
      rfl
    . rfl

theorem Inv.add_refines (h : Inv buildKey gm) (alloc : Bool) (now : Nat) (group : String)
    (timestamp : UInt64) (payload : List UInt8)
    : Inv buildKey (gm.add buildKey alloc now group timestamp payload).2
        ∧ gm.abs.add alloc group timestamp payload
            =
          ((gm.add buildKey alloc now group timestamp payload).1,
            (gm.add buildKey alloc now group timestamp payload).2.abs) := by
  apply h.onGroup_refines
  intro grp hgrp
  exact hgrp.append_refines alloc now timestamp payload

theorem Inv.addRange_refines (h : Inv buildKey gm) (env : Nat → Bool × Nat) (group : String)
    (entries : List (UInt64 × List UInt8))
    : Inv buildKey (gm.addRange buildKey env group entries).2
        ∧ gm.abs.addRange (fun i => (env i).1) group entries
            =
          ((gm.addRange buildKey env group entries).1,
            (gm.addRange buildKey env group entries).2.abs) := by
  unfold addRange Logs.addRange
  cases entries with
  | nil => exact ⟨h, rfl⟩
  | cons entry entries =>
    apply h.onGroup_refines
    intro grp hgrp
    have ⟨hinv, hres, hlog⟩ := hgrp.append_refines (env 0).1 (env 0).2 entry.1 entry.2
    unfold LogSpec.appendAll
    rcases hspec : grp.log.abs.append (env 0).1 entry.1 entry.2 with ⟨res, log⟩
    rcases happend : grp.append buildKey (env 0).1 (env 0).2 entry.1 entry.2 with ⟨res', grp'⟩
    rw [happend] at hinv hres hlog
    rw [hspec] at hres hlog
    dsimp only at hinv hres hlog
    rw [hres, ← hlog]
    cases res with
    | ok firstId =>
      have ⟨hinv', hres', hlog'⟩ :=
        hinv.appendRest_refines (fun i => env (i + 1)) firstId entries
      simp only [Outcome.mapErr_ok]
      rw [hres', hlog', Outcome.map_mapErr]
      exact ⟨hinv', rfl, rfl⟩
    | err e => exact ⟨hinv, rfl, rfl⟩
    | panic => exact ⟨hinv, rfl, rfl⟩

theorem Inv.remove_refines (h : Inv buildKey gm) (group : String) (upToId : UInt64)
    : Inv buildKey (gm.remove buildKey group upToId).2
        ∧ gm.abs.remove group upToId
            =
          ((gm.remove buildKey group upToId).1, (gm.remove buildKey group upToId).2.abs) := by
  apply h.onGroup_refines
  intro grp hgrp
  exact hgrp.remove_refines upToId

theorem Inv.read_frame (h : Inv buildKey gm) (now : Nat) (group : String) (id : UInt64)
    : Inv buildKey (gm.read buildKey now group id).2
        ∧ (gm.read buildKey now group id).2.abs = gm.abs := by
  apply h.onGroup_frame
  intro grp hgrp
  exact hgrp.read_frame now id

theorem Inv.readRange_frame (h : Inv buildKey gm) (now : Nat → Nat) (group : String)
    (start stop : UInt64)
    : Inv buildKey (gm.readRange buildKey now group start stop).2
        ∧ (gm.readRange buildKey now group start stop).2.abs = gm.abs := by
  apply h.onGroup_frame
  intro grp hgrp
  exact hgrp.readRange_frame now start stop

/-
Runs of the group manager.
-/

inductive Op where
  | createGroup (alloc : Nat → Bool) (name : String)
  | dropGroup (name : String)
  | add (alloc : Bool) (now : Nat) (group : String) (timestamp : UInt64) (payload : List UInt8)
  | addRange (env : Nat → Bool × Nat) (group : String) (entries : List (UInt64 × List UInt8))
  | read (now : Nat) (group : String) (id : UInt64)
  | readRange (now : Nat → Nat) (group : String) (start stop : UInt64)
  | remove (group : String) (upToId : UInt64)

def step (buildKey : String → UInt64 → UInt64) (gm : GroupManager) : Op → GroupManager
  | .createGroup alloc name => (gm.createGroup alloc name).2
  | .dropGroup name => (gm.dropGroup name).2
  | .add alloc now group timestamp payload =>
    (gm.add buildKey alloc now group timestamp payload).2
  | .addRange env group entries => (gm.addRange buildKey env group entries).2
  | .read now group id => (gm.read buildKey now group id).2
  | .readRange now group start stop => (gm.readRange buildKey now group start stop).2
  | .remove group upToId => (gm.remove buildKey group upToId).2

def run (buildKey : String → UInt64 → UInt64) (ops : List Op) : GroupManager :=
  ops.foldl (step buildKey) new

theorem Inv.step (h : Inv buildKey gm) (op : Op) : Inv buildKey (gm.step buildKey op) := by
  cases op with
  | createGroup alloc name => exact (h.createGroup_refines alloc name).1
  | dropGroup name => exact (h.dropGroup_refines name).1
  | add alloc now group timestamp payload =>
    exact (h.add_refines alloc now group timestamp payload).1
  | addRange env group entries => exact (h.addRange_refines env group entries).1
  | read now group id => exact (h.read_frame now group id).1
  | readRange now group start stop => exact (h.readRange_frame now group start stop).1
  | remove group upToId => exact (h.remove_refines group upToId).1

theorem inv_run (buildKey : String → UInt64 → UInt64) (ops : List Op)
    : Inv buildKey (run buildKey ops) := by
  unfold run
  induction ops using List.reverseRecOn with
  | nil => exact inv_new buildKey
  | append_singleton ops op ih =>
    rw [List.foldl_append]
    exact ih.step op

theorem read_eq_log_and_readRange_eq_log_iff (buildKey : String → UInt64 → UInt64)
    (hinj : ∀ name, Function.Injective (buildKey name)) (ops : List Op) (group : String) (grp : Group)
    (hgrp : (run buildKey ops).groups.lookup group = some grp)
    : (∀ now id,
        ((run buildKey ops).read buildKey now group id).1 = (grp.log.read id).mapErr .logError)
        ∧ ∀ now start stop,
            start ≤ stop
              → stop.toNat - start.toNat + 1 < 2 ^ 64
              → (((run buildKey ops).readRange buildKey now group start stop).1
                    = (grp.log.readRange start stop).mapErr .logError
                  ↔ 40 * (stop.toNat - start.toNat + 1) ≤ 2 ^ 63 - 1) := by
  have hinv := inv_run buildKey ops group grp hgrp
  constructor
  . intro now id
    unfold read onGroup
    rw [hgrp]
    exact hinv.read_eq (hinj group) now id
  . intro now start stop hle hlen
    unfold readRange onGroup
    rw [hgrp]
    exact hinv.readRange_eq_iff (hinj group) now hle hlen

theorem read_eq_log_identity_key
    : ∃ grp,
        let gm := run (fun _ id => id) [.createGroup (fun _ => true) "g", .add true 0 "g" 5 [7]]
        gm.groups.lookup "g" = some grp
          ∧ (gm.read (fun _ id => id) 1 "g" 1).1 = (grp.log.read 1).mapErr .logError
          ∧ (gm.readRange (fun _ id => id) (fun _ => 1) "g" 1 2).1
              = (grp.log.readRange 1 2).mapErr .logError := by
  have h := read_eq_log_and_readRange_eq_log_iff (fun _ id => id) (fun _ _ _ h => h)
    [.createGroup (fun _ => true) "g", .add true 0 "g" 5 [7]] "g" _ rfl
  exact ⟨_, rfl, h.1 1 1, (h.2 (fun _ => 1) 1 2 (by decide) (by decide)).mpr (by decide)⟩

-- a group without entries, asked for the ids from 1 to 2 ^ 63
theorem readRange_ne_log
    : ∃ grp,
        (run (fun _ id => id) [.createGroup (fun _ => true) "g"]).groups.lookup "g" = some grp
          ∧ (1 : UInt64) ≤ 9223372036854775808
          ∧ (9223372036854775808 : UInt64).toNat - (1 : UInt64).toNat + 1 < 2 ^ 64
          ∧ ((run (fun _ id => id) [.createGroup (fun _ => true) "g"]).readRange (fun _ id => id)
              (fun _ => 0) "g" 1 9223372036854775808).1 = .panic
          ∧ grp.log.readRange 1 9223372036854775808 = .ok [] := by
  refine ⟨_, rfl, by decide, by decide, ?_, ?_⟩
  . rfl
  . rw [SegLog.inv_empty.readRange_eq (by decide)]
    rfl

end GroupManager
end MemStream
