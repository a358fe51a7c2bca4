import Mathlib.Data.List.Basic

/-!
# Bursts on one channel

A channel that carries the beats of bursts without naming them: which burst a beat belongs to is
told by order alone. The beats are in order when every one of them is of the first burst whose last
beat has not gone.
-/

namespace MuirFpga.Sync

variable {Owner Beat : Type} {last : Beat → Bool}

/-- The beats of bursts in the order of the bursts' owners, each burst whole before the next begins;
and the owners of the bursts that have not ended. -/
inductive Carried (last : Beat → Bool) (owners : List Owner) :
    List (Owner × Beat) → List Owner → Prop
  | nothing : Carried last owners [] owners
  | beat {left : List Owner} {beats : List (Owner × Beat)} {owner : Owner} {beat : Beat}
      (before : Carried last owners beats (owner :: left)) (more : last beat = false) :
      Carried last owners (beats ++ [(owner, beat)]) (owner :: left)
  | last {left : List Owner} {beats : List (Owner × Beat)} {owner : Owner} {beat : Beat}
      (before : Carried last owners beats (owner :: left)) (ends : last beat = true) :
      Carried last owners (beats ++ [(owner, beat)]) left

theorem Carried.snoc {owners left : List Owner} {beats : List (Owner × Beat)}
    (carried : Carried last owners beats left) (owner : Owner) :
    Carried last (owners ++ [owner]) beats (left ++ [owner]) := by
  induction carried with
  | nothing => exact Carried.nothing
  | beat before more ih => exact Carried.beat ih more
  | last before ends ih => exact Carried.last ih ends

theorem Carried.lasts_add {owners left : List Owner} {beats : List (Owner × Beat)}
    (carried : Carried last owners beats left) :
    (beats.countP fun beat => last beat.2) + left.length = owners.length := by
  induction carried with
  | nothing => simp
  | beat before more ih => simpa [List.countP_append, more] using ih
  | last before ends ih =>
    simp only [List.length_cons] at ih
    simp only [List.countP_append, List.countP_singleton, ends, if_true]
    omega

end MuirFpga.Sync
