import NullFlow.Analysis.Method
import NullFlow.Input
import NullFlow.Proofs.Analysis.Confinement
import NullFlow.Proofs.Body.Methods
import NullFlow.Proofs.FlowGraph.Placement
/-!
Every input that was loaded can be analyzed. All numbers of nodes, variables, blocks and slots that
the analysis comes across are in range, every walk down the nodes of a body ends, and the analysis of
every method has an answer. Only a caller who asks it to stop gets none.
-/

namespace NullFlow

/-- Whoever walks down the nodes of the body finds all of them, and gets to an end. -/
structure Body.Walkable (body : Body) : Prop where
  /-- All numbers that the body stores point into their arenas. -/
  covered : ∀ reference ∈ body.references, body.covers reference = true
  found : ∀ node, body.Reaches node → ∃ children, body.children? node = some children
  /-- Whatever nodes are shared, no way down goes on forever. -/
  ends : ∀ node, body.Reaches node → Acc (fun child parent => body.Contains parent child) node
  /-- Every node stands for a tree, in which its variables are known. -/
  trees : ∀ node, body.Reaches node → HasTree body.forest node

/-- Whatever is looked up while a graph is analyzed is there. -/
structure FlowGraph.Safe (context : Context) (graph : MeaningGraph) : Prop where
  blocks : graph.InRange
  transfer : ∀ block ∈ graph.blocks, Confines context (block.transfer context) OutflowFits
  solve : ∀ session, NullFlow.Confined context session (graph.solve context Store.entry)
    (SolutionFits graph)
  analyze : ∀ session, NullFlow.Confined context session (graph.analyze context Store.entry)
    (SolutionFits graph)

/-- The method can be analyzed: its body and all lambdas are safe, and there is an answer. -/
structure Method.Analyzable (method : Method) (classes : ClassTable) (options : Options) : Prop where
  /-- Every expression keeps to the slot table, whatever is asked of it. -/
  expression : ∀ token (expr : Expr),
    Meaning.Confined (method.context classes options token)
      (expr.meaning (method.context classes options token))
  body : ∀ token, FlowGraph.Safe (method.context classes options token)
    (method.graph classes options token)
  /-- The graphs of lambdas with a block. -/
  block : ∀ token (code : Code), FlowGraph.Safe (method.context classes options token)
    (code.graph (method.context classes options token))
  /-- The graphs of lambdas that yield an expression. -/
  value : ∀ token (value : Expr) (span : Span),
    FlowGraph.Safe (method.context classes options token)
      (.ofValue (value.meaning (method.context classes options token)) span)
  /-- Every slot of the last table is derived from an older slot of it, if from any. -/
  slots : ∀ token, (method.run classes options token).2.slots.Rooted
  /-- The last table is the work of operations, each on slots of the table that it is given. -/
  operations : ∀ token, ∃ operations, SlotTable.AllFit operations ∧
    (∀ operation ∈ operations, ¬operation.IsRawMember) ∧
    SlotTable.build operations = (method.run classes options token).2.slots
  answer : ∃ analysis, method.analyze classes options false = some analysis

/-- The analysis of the method has its whole answer or none. -/
structure Method.AllOrNothing (method : Method) (classes : ClassTable) (options : Options) :
    Prop where
  /-- Without a token there is an answer, and no other stands in for it. -/
  answers : ∃ analysis, method.analyzeUntil classes options none = .ok analysis ∧
    method.analyzeToEnd classes options = analysis
  /-- A token that is not cancelled meanwhile changes nothing. -/
  waits : ∀ token : CancellationToken, (∀ checks, token.isCancelled checks = false) →
    method.analyzeUntil classes options (some token) = method.analyzeUntil classes options none
  /-- After a cancellation the method is named and nothing else is told. -/
  stops : ∀ token : CancellationToken, token.isCancelled 0 = true →
    method.analyzeUntil classes options (some token) = .error ⟨method.name⟩

section Graphs

variable {context : Context} {graph : MeaningGraph} {place : BlockId → Placement}

/-- A structured graph is safe to analyze: every number that turns up is in range. -/
theorem FlowGraph.Structured.safe (structured : graph.Structured place)
    (covers : Region.whole.CoversGraph context graph) : FlowGraph.Safe context graph where
  blocks := structured.inRange
  transfer block member := Block.transfer_confines (covers.parts block member)
  solve _ := solve_confined covers
  analyze _ := analyze_confined covers

/-- The graph of a body is safe to analyze. -/
theorem Code.graph_safe (context : Context) (code : Code) :
    FlowGraph.Safe context (code.graph context) := by
  obtain ⟨place, structured⟩ := FlowGraph.ofStmt_structured
    (foldStmt (Meaning.ofNode context) code)
  exact structured.safe (Region.whole_coversGraph context code)

/-- The graph of a lambda that is one expression is safe to analyze. -/
theorem Expr.graph_safe (context : Context) (value : Expr) (span : Span) :
    FlowGraph.Safe context (.ofValue (value.meaning context) span) :=
  (FlowGraph.ofValue_structured _ span).safe (Region.whole_coversGraph_ofValue context value span)

end Graphs

namespace Method

variable (method : Method) (classes : ClassTable) (options : Options)

/-- The analysis of a method has an answer if nobody asks it to stop. -/
theorem analyze_answers : ∃ analysis, method.analyze classes options false = some analysis := by
  have covers := Region.whole_coversGraph (method.context classes options false) method.code
  have answers : ∃ solution, (method.run classes options false).1 = some solution :=
    NullFlow.analyze_answers covers rfl rfl
  have grows : (method.session options).Grows (method.context classes options false)
      (method.run classes options false).2 := (analyze_confined covers).grows
  have notCancelled : (method.run classes options false).2.cancelled = false := by
    cases stopped : (method.run classes options false).2.cancelled with
    | false => rfl
    | true =>
        rcases grows.stopped stopped with before | requested
        · cases before
        · cases requested
  have running : (method.run classes options false).2.mustStop false = false :=
    Session.mustStop_eq_false (Bool.or_eq_false_iff.mpr ⟨notCancelled, rfl⟩)
  cases ran : method.run classes options false with
  | mk solution? final =>
      rw [ran] at answers running
      obtain ⟨solution, rfl⟩ := answers
      change final.mustStop _ = false at running
      simp [analyze, MethodAnalysis.ofRun?, ran, running]

/-- The analysis of a method has no answer if it has to stop from the start. -/
theorem analyze_stopped {token : CancellationToken} (requested : token.isCancelled 0 = true) :
    method.analyze classes options token = none := by
  have stops : (Comparison.muted (method.session options)).mustStop token = true := requested
  have stopped : (method.run classes options token).1 = none := by
    rw [run, Comparison.analyze_eq, FlowGraph.solve, Comparison.iterate_stopped stops]
  cases ran : method.run classes options token with
  | mk solution? final =>
      rw [ran] at stopped
      obtain rfl : solution? = none := stopped
      simp [analyze, MethodAnalysis.ofRun?, ran]

/-- A method is analyzed whole or not at all. -/
theorem allOrNothing : method.AllOrNothing classes options where
  answers := by
    obtain ⟨analysis, answer⟩ := method.analyze_answers classes options
    have completes : method.analyzeUntil classes options none = .ok analysis := by
      simp only [analyzeUntil, Option.getD_none, answer]
    exact ⟨analysis, completes, by rw [analyzeToEnd, completes]⟩
  waits token calm := by
    rw [CancellationToken.eq_steady calm]
    rfl
  stops token requested := by
    rw [analyzeUntil, Option.getD_some, analyze_stopped method classes options requested]

/-- Every method is safe to analyze, in its body and in every lambda. -/
theorem analyzable : method.Analyzable classes options where
  expression _ := meaning_confined _
  body _ := Code.graph_safe _ method.code
  block _ := Code.graph_safe _
  value _ := Expr.graph_safe _
  slots token := by
    have safe := Code.graph_safe (method.context classes options token) method.code
    exact (safe.analyze (method.session options)).grows.slots.rooted SlotTable.rooted_empty
  operations token := by
    have safe := Code.graph_safe (method.context classes options token) method.code
    exact (safe.analyze (method.session options)).grows.evolves.exists_build
  answer := method.analyze_answers classes options

end Method

namespace Body

variable {body : Body}

/-- A valid body has a tree below every node, and its walk ends. -/
theorem walkable (valid : body.validate = .ok ()) : body.Walkable where
  covered _ stored := valid_covers valid stored
  found node reached := by
    apply valid_induct valid _ reached
    intro node children found _
    exact ⟨children, found⟩
  ends node reached := by
    apply valid_induct valid _ reached
    intro node children found each
    constructor
    rintro child ⟨others, isFound, inside⟩
    rw [found] at isFound
    obtain rfl := Option.some.inj isFound
    exact each child inside
  trees _ reached := forest_has valid reached

/-- The analysis of a valid body cannot be stopped halfway. It has its answer if nobody asks it to
stop, also if the token for asking is there, and else there is no more than the name of the body. -/
theorem analysis_all_or_nothing (body : Body) (valid : body.validate = .ok ()) :
    ∃ method, body.method? = some method ∧ method.name = body.name ∧
      ∀ classes options, method.AllOrNothing classes options := by
  obtain ⟨method, found⟩ := method?_exists valid
  obtain ⟨code, -, same⟩ := Option.bind_eq_some_iff.mp found
  have name : method.name = body.name := congrArg Method.name (Option.some.inj same).symm
  exact ⟨method, found, name, method.allOrNothing⟩

/-- A loop around a lambda that returns `this`. -/
def lambdaInLoop : Body where
  name := "M"
  span? := none
  thisType? := none
  parameters := []
  returnType := .void
  locals := #[]
  exprs := #[⟨.this, none, .none⟩, ⟨.lambda [] (.block 0), none, .none⟩,
    ⟨.literal (.bool true), some (.value "bool" .plain), .none⟩]
  stmts := #[⟨.returnValue (some 0), .none⟩, ⟨.evaluate 1, .none⟩, ⟨.whileLoop 2 1, .none⟩]
  root := 2

/-- One pass is made even if none is allowed. -/
theorem lambdaInLoop_all_or_nothing :
    lambdaInLoop.validate = .ok () ∧ ∃ method, lambdaInLoop.method? = some method ∧
      method.name = "M" ∧ method.AllOrNothing (.ofList []) ⟨0, true⟩ ∧
      method.analyzeToEnd (.ofList []) ⟨0, true⟩ = ⟨[], none, 1, false⟩ := by
  have valid : lambdaInLoop.validate = .ok () := rfl
  obtain ⟨method, found, name, all⟩ := analysis_all_or_nothing lambdaInLoop valid
  have checked : (lambdaInLoop.method?.all fun method => decide
      (method.analyzeToEnd (.ofList []) ⟨0, true⟩ = ⟨[], none, 1, false⟩)) = true := by
    decide +kernel
  have outcome := (Option.all_eq_true _ _).mp checked method found
  exact ⟨valid, method, found, name, all _ _, of_decide_eq_true outcome⟩

/-- A token that is set after the first check stops the analysis behind its first pass. -/
example : (lambdaInLoop.method?.map fun method =>
    method.analyze (.ofList []) ⟨0, true⟩ ⟨some 1⟩) = some none := by decide +kernel

end Body

namespace Input

/-- What is loaded is valid. -/
theorem validate_of_load {text : String} {input : Input} (loaded : load text = .ok input) :
    input.validate = .ok () := by
  unfold load ofValue at loaded
  cases read : (Json.read shape text).mapError LoadError.json with
  | error fault =>
      rw [read] at loaded
      cases loaded
  | ok value =>
      rw [read] at loaded
      cases decoded : (ofJson value).mapError LoadError.json with
      | error fault =>
          simp only [bind, Except.bind, decoded] at loaded
          cases loaded
      | ok candidate =>
          simp only [bind, Except.bind, decoded] at loaded
          cases validated : candidate.validate with
          | error fault =>
              rw [validated] at loaded
              cases loaded
          | ok done =>
              rw [validated] at loaded
              obtain rfl : candidate = input := Except.ok.inj loaded
              exact validated

/-- Every body of a valid input is valid. -/
theorem body_valid {input : Input} (valid : input.validate = .ok ()) :
    ∀ body ∈ input.methods, body.validate = .ok () := by
  unfold validate at valid
  generalize input.methods = bodies at valid
  induction bodies with
  | nil => exact fun _ member => by cases member
  | cons first rest ih =>
      cases checked : first.validate with
      | error defect =>
          simp only [List.forM, checked] at valid
          cases valid
      | ok done =>
          simp only [List.forM, checked] at valid
          intro body member
          rcases List.mem_cons.mp member with rfl | inRest
          · exact checked
          · exact ih valid body inRest

/-- Every body of a loaded input can be walked, and its method can be analyzed with all options. -/
theorem loaded_analyzable (text : String) (input : Input) (loaded : load text = .ok input) :
    ∀ body ∈ input.methods, body.Walkable ∧ ∃ method, body.method? = some method ∧
      ∀ options, method.Analyzable input.classes options := by
  intro body member
  have valid := body_valid (validate_of_load loaded) body member
  obtain ⟨method, found⟩ := Body.method?_exists valid
  exact ⟨Body.walkable valid, method, found, fun options => method.analyzable _ options⟩

/-- A method that evaluates `this`, or else a lambda that yields `this`. Both share one node. -/
def sharedThis : String :=
  "[[],[[\"M\",null,null,[],\x7b\"kind\":\"value\",\"name\":\"void\"\x7d,[]," ++
    "[[[\"this\"]],[[\"lambda\",[[],\x7b\"expr\":0\x7d]]],[[\"coalesce\",0,1]]]," ++
    "[[[\"expr\",2]]],0]]]"

/-- A body that is read from text and shares its nodes is safe to analyze. -/
theorem sharedThis_analyzable : ∃ input body, load sharedThis = .ok input ∧
    body ∈ input.methods ∧ body.Walkable ∧ ∃ method, body.method? = some method ∧
      ∀ options, method.Analyzable input.classes options := by
  have checked : ((load sharedThis).toOption.any fun input => !input.methods.isEmpty) = true := by
    decide +kernel
  cases loaded : load sharedThis with
  | error fault =>
      rw [loaded] at checked
      cases checked
  | ok input =>
      rw [loaded] at checked
      have analyzable := loaded_analyzable sharedThis input loaded
      cases methods : input.methods with
      | nil =>
          change (!input.methods.isEmpty) = true at checked
          rw [methods] at checked
          cases checked
      | cons body rest =>
          have member : body ∈ input.methods := methods ▸ List.mem_cons_self
          exact ⟨input, body, rfl, member, analyzable body member⟩

end Input

end NullFlow
