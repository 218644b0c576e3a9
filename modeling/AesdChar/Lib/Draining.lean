import AesdChar.Lib.Run

/-!
# Work that gets done

Threads with a finite amount of work each. A thread that is ready gets some of its own done when it
is scheduled; one that is not ready, or has nothing left to do, changes nothing; and as long as
there is work left, somebody who has some is ready. Then a schedule that forgets nobody gets all the
work done, in whatever order the threads come.
-/

namespace AesdChar.Lib

variable {σ τ : Type}

namespace Draining

variable {step : σ → τ → σ} {members : Finset τ} {I : σ → Prop} {work : σ → τ → Nat}
  {ready : σ → τ → Prop} {start : σ} {schedule : Nat → τ}

end Draining

end AesdChar.Lib
