import Metahumotonic.Library.Table
import Mathlib.Data.Int.Order.Basic
import Mathlib.Data.List.MinMax

/-! The Redis commands that the limiters send: a sorted set gives every member a score,
and a key may have a time after which it is gone. An absent key is an empty set. -/
namespace Metahumotonic.Limiter

open Library

structure SortedSet where
  scores : Table String ℤ
  expiresAt : Option ℤ

namespace SortedSet

def empty : SortedSet := ⟨.empty, none⟩

/-- A key that lost its last member is deleted, and its expiry with it. -/
def tidy (z : SortedSet) : SortedSet := if z.scores.size = 0 then empty else z

/-- The key as a command at this time finds it. -/
def live (z : SortedSet) (now : ℤ) : SortedSet :=
  match z.expiresAt with
  | some e => if e < now then empty else z
  | none => z

/-- `none` is the score -inf. -/
def zremrangebyscore (z : SortedSet) (low : Option ℤ) (high : ℤ) : SortedSet :=
  tidy { z with
    scores := z.scores.filter fun entry => !(low.all (· ≤ entry.2) && decide (entry.2 ≤ high)) }

def zadd (z : SortedSet) (score : ℤ) (member : String) : SortedSet :=
  { z with scores := z.scores.set member score }

def zrem (z : SortedSet) (member : String) : SortedSet :=
  tidy { z with scores := z.scores.erase member }

def zcard (z : SortedSet) : Nat := z.scores.size

/-- The score that `ZRANGE 0 0 WITHSCORES` reads. -/
def lowest (z : SortedSet) : Option ℤ := z.scores.values.min?

def pexpire (z : SortedSet) (now milliseconds : ℤ) : SortedSet :=
  if z.scores.size = 0 then z else { z with expiresAt := some (now + milliseconds) }

def expire (z : SortedSet) (now seconds : ℤ) : SortedSet := z.pexpire now (seconds * 1000)

/-- The key, if it expires, does so a window or more after each of its scores. -/
def Outlives (window : ℤ) (z : SortedSet) : Prop :=
  ∀ e, z.expiresAt = some e → ∀ m a, z.scores.get? m = some a → a + window ≤ e

theorem empty_outlives (window : ℤ) : Outlives window empty := nofun

@[simp] theorem get?_tidy (z : SortedSet) (m : String) :
    z.tidy.scores.get? m = z.scores.get? m := by
  unfold tidy
  split
  · rename_i none_
    have bare : z.scores.entries = [] := List.length_eq_zero_iff.mp none_
    simp [empty, Table.get?, Table.empty, bare]
  · rfl

theorem Outlives.tidy {window : ℤ} {z : SortedSet} (outlives : Outlives window z) :
    Outlives window z.tidy := by
  unfold SortedSet.tidy
  split
  · exact empty_outlives window
  · exact outlives

theorem Outlives.filter {window : ℤ} {z : SortedSet} (outlives : Outlives window z)
    (p : String × ℤ → Bool) : Outlives window { z with scores := z.scores.filter p } := by
  intro e expires m a found
  exact outlives e expires m a ((Table.get?_filter _ _ _ _).mp found).1

theorem Outlives.live {window : ℤ} {z : SortedSet} (outlives : Outlives window z) (now : ℤ) :
    Outlives window (z.live now) := by
  unfold SortedSet.live
  split
  · split
    · exact empty_outlives window
    · exact outlives
  · exact outlives

/-- What lies in the window that ends now is still there. -/
theorem get?_live {window now : ℤ} {z : SortedSet} (outlives : Outlives window z)
    {m : String} {a : ℤ}
    (recent : now - window < a) :
    (z.live now).scores.get? m = some a ↔ z.scores.get? m = some a := by
  unfold live
  split
  · rename_i e expires
    split
    · rename_i gone
      constructor
      · nofun
      · intro found
        have := outlives e expires m a found
        omega
    · rfl
  · rfl

theorem live_subset {z : SortedSet} {now : ℤ} {m : String} {a : ℤ}
    (found : (z.live now).scores.get? m = some a) : z.scores.get? m = some a := by
  unfold live at found
  split at found
  · split at found
    · cases found
    · exact found
  · exact found

theorem get?_zremrangebyscore (z : SortedSet) (low : Option ℤ) (high : ℤ) (m : String) (a : ℤ) :
    (z.zremrangebyscore low high).scores.get? m = some a ↔
      z.scores.get? m = some a ∧ ¬ (low.all (· ≤ a) = true ∧ a ≤ high) := by
  simp only [zremrangebyscore, get?_tidy, Table.get?_filter, Bool.not_eq_true', ← Bool.not_eq_true,
    Bool.and_eq_true, decide_eq_true_eq]

theorem get?_zrem (z : SortedSet) (gone m : String) (a : ℤ) :
    (z.zrem gone).scores.get? m = some a ↔ z.scores.get? m = some a ∧ m ≠ gone := by
  simp [zrem, Table.get?_erase]

theorem Outlives.zrem {window : ℤ} {z : SortedSet} (outlives : Outlives window z) (gone : String) :
    Outlives window (z.zrem gone) :=
  (outlives.filter _).tidy

/-- What is left once the scores of earlier windows are removed. -/
theorem get?_recent {window : ℤ} {z : SortedSet} (outlives : Outlives window z) (now : ℤ)
    (low : Option ℤ)
    (all : ∀ m a, z.scores.get? m = some a → low.all (· ≤ a) = true) (m : String) (a : ℤ) :
    ((z.live now).zremrangebyscore low (now - window)).scores.get? m = some a ↔
      z.scores.get? m = some a ∧ now - window < a := by
  rw [get?_zremrangebyscore]
  constructor
  · rintro ⟨found, kept⟩
    have before := live_subset found
    refine ⟨before, ?_⟩
    by_contra old
    exact kept ⟨all m a before, Int.not_lt.mp old⟩
  · rintro ⟨found, recent⟩
    refine ⟨(get?_live outlives recent).mpr found, ?_⟩
    rintro ⟨_, old⟩
    omega

theorem Outlives.recent {window : ℤ} {z : SortedSet} (outlives : Outlives window z) (low : Option ℤ)
    (now high : ℤ) : Outlives window ((z.live now).zremrangebyscore low high) :=
  ((outlives.live now).filter _).tidy

/-- A key whose expiry is set anew outlives what it holds. -/
theorem pexpire_outlives {window now milliseconds : ℤ} (z : SortedSet)
    (long : window ≤ milliseconds)
    (past : ∀ m a, z.scores.get? m = some a → a ≤ now) :
    Outlives window (z.pexpire now milliseconds) := by
  unfold pexpire
  split
  · rename_i none_
    have bare : z.scores.entries = [] := List.length_eq_zero_iff.mp none_
    intro e _ m a found
    simp [Table.get?, bare] at found
  · intro e expires m a found
    cases expires
    have := past m a found
    omega

@[simp] theorem pexpire_scores (z : SortedSet) (now milliseconds : ℤ) :
    (z.pexpire now milliseconds).scores = z.scores := by
  unfold pexpire
  split <;> rfl

end SortedSet

end Metahumotonic.Limiter
