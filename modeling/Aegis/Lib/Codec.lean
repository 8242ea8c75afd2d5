import Mathlib.Init

/-!
# Canonical formats

A format is a writer, which refuses some values, and a reader, which refuses some strings. It is canonical if
the two are inverse to each other where they do not refuse: what was written reads back, and what was read is
what would be written. Then every value that is read at all is read from one string.
-/

/-- The writer and the reader are inverse to each other where neither refuses. -/
structure CanonicalCodec {α β : Type} (write : α → Option β) (read : β → Option α) : Prop where
  reads_back : ∀ value data, write value = some data → read data = some value
  writes_back : ∀ data value, read data = some value → write value = some data
