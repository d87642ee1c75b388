import ITrace.Misc.Machine

/-!
# Traces

What a machine does to its surroundings as a list: `out s e` are the actions of the step from `s`
with the event `e`. Rules for such actions are a machine too, with the actions as its events, and
a trace keeps to the rules if it is a run of that machine.
-/

namespace ITrace.Machine

variable {σ ε τ ω : Type*}

variable {m : Machine σ ε} {out : σ → ε → List ω}

end ITrace.Machine
