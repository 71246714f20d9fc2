/-! # Powers and sums of numbers

Powers and sums of numbers go by the instances of core, also where a library has others.
-/

attribute [instance (high)] instPowNat Zero.ofOfNat0

attribute [default_instance (high + 1)] instPowNat
