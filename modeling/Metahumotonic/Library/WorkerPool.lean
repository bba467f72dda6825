import Mathlib.Data.List.Perm.Basic
import Metahumotonic.Library.Run

/-! A pool of workers over one list of jobs: a worker takes the next job whenever it has none. In
whatever order the jobs end, each of them ends once. -/
namespace Metahumotonic.Library

/-- How many jobs are taken, those at work, and those that have ended, in order. -/
structure Pool (α : Type*) where
  next : ℕ
  running : List α
  finished : List α

namespace Pool

variable {α : Type*}

inductive Event (α : Type*) where
  | take (job : α)
  | finish (job : α)

/-- The moves of a pool: a worker without a job takes the next one, or a job ends. -/
inductive Step (jobs : List α) (workers : ℕ) : Pool α → Event α → Pool α → Prop where
  | take {pool : Pool α} {job : α} (idle : pool.running.length < workers)
    (left : jobs[pool.next]? = some job) :
      Step jobs workers pool (.take job) ⟨pool.next + 1, pool.running ++ [job], pool.finished⟩
  | finish {next : ℕ} {before after finished : List α} (job : α) :
      Step jobs workers ⟨next, before ++ job :: after, finished⟩ (.finish job)
        ⟨next, before ++ after, finished ++ [job]⟩

def start : Pool α := ⟨0, [], []⟩

/-- No job is left and none is at work. -/
def Done (jobs : List α) (pool : Pool α) : Prop := jobs.length ≤ pool.next ∧ pool.running = []

/-- An order in which all jobs end. -/
def Completes (jobs : List α) (workers : ℕ) (order : List α) : Prop :=
  ∃ events pool, Path (Step jobs workers) start events pool ∧ Done jobs pool ∧ pool.finished = order

variable {jobs : List α} {workers : ℕ}

/-- The jobs taken are those at work and those that have ended. -/
def Accounted (jobs : List α) (pool : Pool α) : Prop :=
  (pool.running ++ pool.finished).Perm (jobs.take pool.next)

theorem step_accounted {pool after : Pool α} {event : Event α}
    (step : Step jobs workers pool event after)
    (held : Accounted jobs pool) : Accounted jobs after := by
  cases step with
  | @take _ job idle left =>
    have longer : jobs.take (pool.next + 1) = jobs.take pool.next ++ [job] := by
      rw [List.take_add_one, left]
      rfl
    have moved : (pool.running ++ [job] ++ pool.finished).Perm
        (pool.running ++ pool.finished ++ [job]) := by
      rw [List.append_assoc, List.append_assoc]
      exact List.perm_append_comm.append_left _
    unfold Accounted
    rw [longer]
    exact moved.trans (held.append_right [job])
  | @finish next before after finished job =>
    have moved : (before ++ after ++ (finished ++ [job])).Perm
        (before ++ job :: after ++ finished) := by
      rw [← List.append_assoc]
      refine List.perm_append_comm.trans ?_
      rw [List.singleton_append, List.append_assoc, List.append_assoc]
      exact List.perm_middle.symm
    exact moved.trans held

/-- Every job ends, and each once. -/
theorem Completes.perm {order : List α} (completes : Completes jobs workers order) :
    order.Perm jobs := by
  obtain ⟨events, pool, path, ⟨taken, idle⟩, rfl⟩ := completes
  have accounted : Accounted jobs pool :=
    path.invariant (Accounted jobs) (fun _ _ _ step held => step_accounted step held) .rfl
  unfold Accounted at accounted
  rwa [idle, List.nil_append, List.take_of_length_le taken] at accounted

/-- With a worker for each, all jobs can be at work at once. -/
theorem take_all (enough : jobs.length ≤ workers) (count : ℕ) (within : count ≤ jobs.length) :
    ∃ events, Path (Step jobs workers) start events ⟨count, jobs.take count, []⟩ := by
  induction count with
  | zero => exact ⟨[], .nil _⟩
  | succ count ih =>
    obtain ⟨events, path⟩ := ih (by omega)
    have size : (jobs.take count).length = count := List.length_take_of_le (by omega)
    have left : jobs[count]? = some jobs[count] := List.getElem?_eq_getElem _
    have idle : (jobs.take count).length < workers := by omega
    have longer : jobs.take count ++ [jobs[count]] = jobs.take (count + 1) :=
      List.take_append_getElem _
    have taken : Step jobs workers ⟨count, jobs.take count, []⟩ (.take jobs[count])
        ⟨count + 1, jobs.take (count + 1), []⟩ := longer ▸ .take idle left
    exact ⟨events ++ [.take jobs[count]], path.append (.cons taken (.nil _))⟩

/-- Jobs at work can end in any order. -/
theorem finish_all (next : ℕ) {order : List α} : ∀ {running : List α} (finished : List α),
    running.Perm order →
    ∃ events, Path (Step jobs workers) ⟨next, running, finished⟩ events
      ⟨next, [], finished ++ order⟩ := by
  induction order with
  | nil =>
    intro running finished perm
    rw [List.append_nil, perm.eq_nil]
    exact ⟨[], .nil _⟩
  | cons job rest ih =>
    intro running finished perm
    obtain ⟨before, after, rfl⟩ := List.append_of_mem (perm.mem_iff.mpr List.mem_cons_self)
    have later : (before ++ after).Perm rest := (List.perm_middle.symm.trans perm).cons_inv
    obtain ⟨events, path⟩ := ih (finished ++ [job]) later
    rw [List.append_assoc, List.singleton_append] at path
    exact ⟨.finish job :: events, .cons (.finish job) path⟩

/-- With a worker for each job, the jobs end in any order. -/
theorem completes_iff (enough : jobs.length ≤ workers) (order : List α) :
    Completes jobs workers order ↔ order.Perm jobs := by
  constructor
  · exact Completes.perm
  · intro perm
    obtain ⟨first, taken⟩ := take_all enough jobs.length (Nat.le_refl _)
    rw [List.take_length] at taken
    obtain ⟨second, ended⟩ := finish_all jobs.length [] perm.symm
    exact ⟨first ++ second, _, taken.append ended, ⟨(Nat.le_refl _), rfl⟩, rfl⟩

end Pool

end Metahumotonic.Library
