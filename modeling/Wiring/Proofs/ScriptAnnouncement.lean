import Wiring.Proofs.Announcement
import Wiring.Script.Routine

namespace Wiring.Script

open Program (Announces Obeys)

variable {α : Type}

theorem note_announces (r : Result) : (note r).Announces := by
  have ha : (Action.note r : Action client).Incidental := trivial
  exact .perform ha

theorem change_announces (f : Board → Board) : (change f).Announces := by
  have ha : (Action.update f : Action client).Incidental := trivial
  exact .perform ha

theorem board_announces : board.Announces := change_announces id

theorem asInstance_announces (r : Result) : (asInstance r).Announces := by
  cases r with
  | «instance» => exact .done trivial
  | text => exact .allocate _ trivial
  | boolean => exact .allocate _ trivial
  | _ => exact .crash

theorem instance_announces {p : Program client Result} {f : Instance → Program client α}
    (h : p.Announces) (hf : ∀ i, (f i).Announces) :
    (p.bind fun r => (asInstance r).bind f).Announces :=
  h.bind fun r _ => (asInstance_announces r).bind fun i _ => hf i

theorem textOf_announces (i : Instance) : (textOf i).Announces := (Obeys.read i).answers

theorem newText_announces (s : String) : (newText s).Announces := (Obeys.allocate _ trivial).answers

theorem tally_announces (key : String) : (tally key).Announces :=
  (change_announces _).answers

theorem increment_announces (i : Instance) : (increment i).Announces := by
  refine (Announces.ofExcept _).bind fun j _ => ?_
  exact .act (a := .modify j.object _) trivial fun _ _ => .done trivial

theorem asGreeter_announces (i : Instance) (what : String) : (asGreeter i what).Announces :=
  (Announces.ofExcept _).answers

theorem Scope.theArguments_announces (s : Scope) : s.theArguments.Announces := by
  unfold theArguments
  split
  · exact .done trivial
  · exact .crash

theorem register_announces (c : ContainerId) (via : Via) (name : String) (r : Registration client) :
    (register c via name r).Announces := by
  have hdirect (also : List ContainerId) :
      (also.forM (Container.register · name r) : Program client PUnit).Announces := by
    induction also with
    | nil => exact .done trivial
    | cons d rest ih => exact (Container.register_announces d name r).bind fun _ _ => ih
  cases via with
  | direct also => exact (hdirect also).bind fun _ _ => Container.register_announces c name r
  | _ => exact Container.register_announces c name r

mutual

theorem eval_announces (e : Expr) (s : Scope) : (eval e s).Announces := by
  have htell {a : Action client} {f : a.Reply → Program client Result} (ha : a.Incidental)
      (hf : ∀ r, (f r).Announces) : ((Program.perform a).bind f).Announces :=
    (Announces.perform ha).bind fun r _ => hf r
  cases e with
  | literal l => rw [eval]; exact (Obeys.allocate _ trivial).answers
  | store name e =>
    rw [eval]
    refine instance_announces (eval_announces e s) fun _ => ?_
    exact (change_announces _).answers
  | «recall» name =>
    rw [eval]
    refine board_announces.bind fun b _ => ?_
    split
    · exact .done trivial
    · exact .crash
  | sequence es => rw [eval]; exact (evalAll_announces es s).answers
  | list es => rw [eval]; exact (evalAll_announces es s).answers
  | attempt e otherwise =>
    cases otherwise with
    | none =>
      rw [eval]
      refine (eval_announces e s).attempt.bind fun r _ => ?_
      cases r with
      | ok => exact .done trivial
      | error => exact (note_announces _).answers
    | some otherwise =>
      rw [eval]
      refine (eval_announces e s).attempt.bind fun r _ => ?_
      cases r with
      | ok => exact .done trivial
      | error => exact (note_announces _).bind fun _ _ => eval_announces otherwise s
  | note e =>
    rw [eval]
    exact (eval_announces e s).bind fun _ _ => (note_announces _).answers
  | fail => rw [eval]; exact .fail
  | crash => rw [eval]; exact .crash
  | count key =>
    rw [eval]
    exact (tally_announces key).bind fun _ _ => (Obeys.allocate _ trivial).answers
  | ifCount key limit within beyond =>
    rw [eval]
    refine (tally_announces key).bind fun n _ => ?_
    split
    · exact eval_announces within s
    · exact eval_announces beyond s
  | increment e =>
    rw [eval]
    refine instance_announces (eval_announces e s) fun _ => ?_
    exact (increment_announces _).answers
  | concat es => rw [eval]; exact (evalTexts_announces es s).bind fun _ _ => newText_announces _
  | argument | nthArgument | argumentInstance =>
    rw [eval]
    exact s.theArguments_announces.bind fun _ _ => (Announces.ofExcept _).answers
  | arguments => rw [eval]; exact s.theArguments_announces.answers
  | withoutArguments target e => rw [eval]; exact eval_announces e _
  | newContainer => rw [eval]; exact htell (a := .newContainer) trivial fun _ => .done trivial
  | add c via name shared recipe =>
    unfold eval
    refine (logic_announces recipe name s).bind fun _ _ => ?_
    exact (register_announces _ via name _).answers
  | get c name => rw [eval]; exact (Obeys.get _ name).answers
  | getAs c name type => rw [eval]; exact (Container.getAs_announces _ name _).answers
  | has c name => rw [eval]; exact (Container.has_announces _ name).answers
  | remove c name => rw [eval]; exact (Container.remove_announces _ name).answers
  | names c => rw [eval]; exact (Container.names_announces _).answers
  | describe c name =>
    rw [eval]
    refine (Container.describe_announces _ name).bind fun found _ => ?_
    cases found with
    | some => exact .done trivial
    | none => exact .done trivial
  | load c text => rw [eval]; exact (Config.load_announces _ _ text).answers
  | loadFile c file =>
    rw [eval]
    exact (Config.loadFile_announces _ _ file).answers
  | config => rw [eval]; exact (Announces.ofExcept _).answers
  | showContainer c => rw [eval]; exact (Container.names_announces _).answers
  | construct c type overrides =>
    rw [eval]
    exact (supplied_announces overrides s).bind fun _ _ => (Announces.request _).answers
  | service c name overrides =>
    rw [eval]
    exact (supplied_announces overrides s).bind fun _ _ => (Announces.request _).answers
  | method c on type name parameters body overrides =>
    rw [eval]
    refine instance_announces (eval_announces on s) fun _ => ?_
    refine (Announces.ofExcept _).bind fun i _ => ?_
    refine (formals_announces parameters s).bind fun _ _ => ?_
    refine (note_announces _).bind fun _ _ => (supplied_announces overrides s).bind fun _ _ => ?_
    refine callMethod_announces (fun args => ?_) _ _ _ _ _
    refine (textOf_announces i).bind fun _ _ => (note_announces _).bind fun _ _ => ?_
    exact eval_announces body _
  | isA e type =>
    rw [eval]
    exact instance_announces (eval_announces e s) fun _ => .done trivial
  | downcast e type =>
    rw [eval]
    exact instance_announces (eval_announces e s) fun _ => .done trivial
  | cast e type what =>
    rw [eval]
    refine instance_announces (eval_announces e s) fun _ => ?_
    exact (Announces.ofExcept _).answers
  | asGreeter e =>
    rw [eval]
    refine instance_announces (eval_announces e s) fun _ => ?_
    exact (asGreeter_announces _ _).answers
  | same a b =>
    rw [eval]
    refine instance_announces (eval_announces a s) fun _ => ?_
    exact instance_announces (eval_announces b s) fun _ => .done trivial
  | showInstance e =>
    rw [eval]
    exact instance_announces (eval_announces e s) fun _ => .done trivial
  | compareTypes => rw [eval]; exact .done trivial
  | showParameter p => rw [eval]; exact (formal_announces p s).answers
  | manifest type => rw [eval]; exact (Announces.run _).answers
  | showLogic name shared recipe =>
    rw [eval]
    refine (logic_announces recipe name s).bind fun logic _ => ?_
    exact logic.parameters_announces.answers
  | defineClass => rw [eval]; exact (change_announces _).answers
  | installDefault c => rw [eval]; exact (DefaultContainer.install_announces c).answers
  | currentDefault => rw [eval]; exact DefaultContainer.current_announces.answers
  | getOrInstallDefault =>
    rw [eval]
    exact DefaultContainer.getOrInstall_announces.answers
  | resetDefault => rw [eval]; exact DefaultContainer.reset_announces.answers
  | insistDefault type name =>
    rw [eval]
    exact (insistDefault_announces type.key name).answers
  | insistFrom c type name =>
    rw [eval]
    exact (insistFrom_announces _ type.key name).answers
  | threads steps =>
    rw [eval]
    refine htell (a := .spawn _) trivial fun ts => ?_
    exact htell (a := .join ts) trivial fun _ => .done trivial
  | signal => rw [eval]; exact (change_announces _).answers
  | wait latch n => rw [eval]; exact htell (a := .await _) trivial fun _ => .done trivial
  | waitBlocked service n =>
    rw [eval]
    exact htell (a := .awaitWaiters service n) trivial fun _ => .done trivial

theorem evalAll_announces (es : List Expr) (s : Scope) : (evalAll es s).Announces := by
  cases es with
  | nil => rw [evalAll]; exact .done trivial
  | cons e rest =>
    rw [evalAll]
    exact (eval_announces e s).bind fun _ _ => (evalAll_announces rest s).answers

theorem evalTexts_announces (es : List Expr) (s : Scope) : (evalTexts es s).Announces := by
  cases es with
  | nil => rw [evalTexts]; exact .done trivial
  | cons e rest =>
    rw [evalTexts]
    refine instance_announces (eval_announces e s) fun _ => ?_
    exact (textOf_announces _).bind fun _ _ => (evalTexts_announces rest s).answers

theorem evalFields_announces (fields : List (String × Expr)) (s : Scope) :
    (evalFields fields s).Announces := by
  match fields with
  | [] => rw [evalFields]; exact .done trivial
  | (name, e) :: rest =>
    rw [evalFields]
    refine instance_announces (eval_announces e s) fun _ => ?_
    exact (evalFields_announces rest s).answers

theorem evalPositions_announces (positions : List (Nat × Expr)) (s : Scope) :
    (evalPositions positions s).Announces := by
  match positions with
  | [] => rw [evalPositions]; exact .done trivial
  | (position, e) :: rest =>
    rw [evalPositions]
    refine instance_announces (eval_announces e s) fun _ => ?_
    exact (evalPositions_announces rest s).answers

theorem supplied_announces (o : Supplied) (s : Scope) : (supplied o s).Announces := by
  cases o with
  | mk positional named =>
    rw [supplied]
    refine (evalPositions_announces positional s).bind fun _ _ => ?_
    exact (evalFields_announces named s).answers

theorem formal_announces (p : Formal) (s : Scope) : (formal p s).Announces := by
  cases p with
  | mk name type autowire default =>
    cases default with
    | none => rw [formal]; exact .done trivial
    | some e =>
      rw [formal]
      exact instance_announces (eval_announces e s) fun _ => .done trivial

theorem formals_announces (ps : List Formal) (s : Scope) : (formals ps s).Announces := by
  cases ps with
  | nil => rw [formals]; exact .done trivial
  | cons p rest =>
    rw [formals]
    exact (formal_announces p s).bind fun _ _ => (formals_announces rest s).answers

theorem logic_announces (recipe : Recipe) (name : String) (s : Scope) :
    (logic recipe name s).Announces := by
  cases recipe with
  | literal l => rw [logic]; exact (Obeys.allocate _ trivial).answers
  | withParameters type parameters body =>
    rw [logic]
    exact (formals_announces parameters s).answers
  | variant type parameters body =>
    rw [logic]
    exact (formals_announces parameters s).answers
  | custom type parameters body =>
    rw [logic]
    exact (formals_announces parameters s).answers
  | literalVariant body =>
    rw [logic]
    exact instance_announces (eval_announces body _) fun _ => .done trivial
  | _ => rw [logic]; exact .done trivial

end

theorem produce_announces (service : String) (type : Tag) (body : Expr) (s : Scope) :
    (produce service type body s).Announces := by
  refine (note_announces _).bind fun _ _ => ?_
  refine instance_announces (eval_announces body s) fun _ => ?_
  exact (Announces.ofExcept _).bind fun i _ => .read i

theorem definition_announces (n : Nat) : (definition n).Announces := board_announces.answers

theorem make_announces (r : Routine) (c : ContainerId) (args : Arguments) :
    (make r c args).Announces := by
  cases r with
  | factory service type body => exact (produce_announces service type body _).insist
  | containerFactory service type body => exact produce_announces service type body _
  | withParameters service type body => exact produce_announces service type body _
  | _ => exact .crash

theorem give_announces (r : Routine) (c : ContainerId) (args : Arguments) :
    (give r c args).Announces := by
  cases r with
  | greeter service body =>
    refine (note_announces _).bind fun _ _ => ?_
    refine instance_announces (eval_announces body _) fun i => ?_
    split
    · exact .done trivial
    · exact asGreeter_announces _ _
  | free service body =>
    refine (note_announces _).bind fun _ _ => (eval_announces body _).bind fun _ _ => ?_
    exact asInstance_announces _
  | _ => exact .crash

theorem manifest_announces (type : TypeKey) : (manifest type).Announces := by
  unfold manifest
  split
  · exact (Obeys.insist ((definition_announces _).bind fun _ _ => formals_announces _ _))
  · exact .done trivial
  · exact .done trivial

theorem construct_announces (type : TypeKey) (args : Arguments) :
    (construct type args).Announces := by
  unfold construct
  split
  · refine (note_announces _).bind fun _ _ => (definition_announces _).bind fun d _ => ?_
    split
    · exact (evalFields_announces _ _).answers
    · exact (Announces.ofExcept _).answers
  · exact (Announces.ofExcept _).answers
  · exact .done trivial

theorem implementation_announces : implementation.Announces := by
  intro k
  cases k with
  | make body c args => exact make_announces body c args
  | give body c args => exact give_announces body c args
  | manifest type => exact manifest_announces type
  | construct type args => exact construct_announces type args

end Wiring.Script
