import Untagged.Proofs.Shape.Sameness
import Untagged.Unions.Fruit
import Untagged.Unions.Measures
import Untagged.Unions.Named

/-!
# The records of the unions are orderly

The members of each record have names of their own and set different parts of a
draft.  So an object is read as if its members came in declared order.
-/

namespace Untagged

theorem AppleReq.record_orderly : AppleReq.record.Orderly :=
  Record.orderly_of_pair rfl (by decide) <|
    (Member.required_setsBy _ _).commutes (Member.omitted_setsBy _ _) fun _ _ _ => rfl

theorem BananaReq.record_orderly : BananaReq.record.Orderly :=
  Record.orderly_of_pair rfl (by decide) <|
    (Member.required_setsBy _ _).commutes (Member.omitted_setsBy _ _) fun _ _ _ => rfl

theorem Named.record_orderly (name : String) : (Named.record name).Orderly :=
  Record.orderly_of_single rfl

theorem Labeled.record_orderly (name : String) : (Labeled.record name).Orderly := by
  refine Record.orderly_of_pair rfl ?_ <|
    (Member.required_setsBy _ _).commutes (Member.defaulted_setsBy _ _) fun _ _ _ => rfl
  show "name" ≠ "label"
  decide

theorem Quantity.record_orderly : Quantity.record.Orderly :=
  Record.orderly_of_single rfl

end Untagged
