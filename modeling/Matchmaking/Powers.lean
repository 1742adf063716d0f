/-!
# Powers

`2 ^ 52` is a power of the core library, also where a larger library is imported
that has powers of its own.  So a definition means the same wherever it is read.
-/

attribute [instance (default + 1), default_instance (high + 1)] instPowNat
