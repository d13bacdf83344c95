import NullFlow.Analysis.Session
/-!
What an analysis sees of a token. It stops an analysis only if one of the checks finds it set, so a
token that no check finds set is as good as none.
-/

namespace NullFlow

namespace CancellationToken

/-- Some check would find the flag set. -/
def stops (token : CancellationToken) : Bool := token.stopsAt?.isSome

variable {token : CancellationToken}

/-- A flag that no check would find set is not set at any time. -/
theorem isCancelled_eq_false (calm : token.stops = false) (checks : Nat) :
    token.isCancelled checks = false := by
  have never : token.stopsAt? = none :=
    Option.isNone_iff_eq_none.mp (Option.isSome_eq_false_iff.mp calm)
  rw [isCancelled, never]
  rfl

/-- A token that no check finds set is as good as none. -/
theorem eq_steady (calm : ∀ checks, token.isCancelled checks = false) : token = steady false := by
  obtain ⟨first?⟩ := token
  cases first? with
  | none => rfl
  | some first => simpa [isCancelled] using calm first

end CancellationToken

namespace Session

variable {session : Session} {token : CancellationToken}

/-- An analysis that nobody stops goes on. -/
theorem mustStop_eq_false (running : (session.cancelled || token.stops) = false) :
    session.mustStop token = false := by
  obtain ⟨notCancelled, calm⟩ := Bool.or_eq_false_iff.mp running
  rw [mustStop, notCancelled, CancellationToken.isCancelled_eq_false calm]
  rfl

end Session
end NullFlow
