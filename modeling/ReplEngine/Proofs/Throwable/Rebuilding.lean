import ReplEngine.Proofs.ClassSpace.Resolution
import ReplEngine.Throwable.Rebuild
set_option autoImplicit false

/-!
# Rebuilding whole chains

What `rebuild` makes of a descriptor, for any constructors: the first constructor that succeeds on
the message and on the cause rebuilt before decides, and where there is none nothing changes.  With
the conventional constructors a chain is rebuilt link for link up to the first class that the host
does not know, and the printed trace shows every link.
-/

namespace ReplEngine

/-! ## Constructors in the order in which they are tried -/

/-- A constructor builds the exception, and none that is tried before it builds any. -/
def ExceptionType.FirstBuilds (type : ExceptionType) (message : Option String)
    (cause : Option Throwable) (e : LiveException) : Prop :=
  ∃ before shape after, ConstructorShape.probeOrder = before ++ shape :: after ∧
    type.construct shape message cause = .ok e ∧
    ∀ earlier ∈ before, ∀ made, type.construct earlier message cause ≠ .ok made

theorem ConstructorShape.mem_probeOrder (shape : ConstructorShape) : shape ∈ probeOrder := by
  cases shape <;> decide

namespace Descriptor

variable {type : ExceptionType} {message : Option String} {cause : Option Throwable}

theorem probe_eq_findSome? (shapes : List ConstructorShape) :
    probe type message cause shapes =
      shapes.findSome? fun shape => (type.construct shape message cause).toOption := by
  induction shapes with
  | nil => rfl
  | cons shape shapes ih =>
    unfold probe
    rw [List.findSome?_cons, ← ih]
    cases type.construct shape message cause <;> rfl

theorem probe_eq_some_iff {e : LiveException} :
    probe type message cause ConstructorShape.probeOrder = some e ↔
      type.FirstBuilds message cause e := by
  rw [probe_eq_findSome?, List.findSome?_eq_some_iff]
  have hsome (shape : ConstructorShape) (made : LiveException) :
      (type.construct shape message cause).toOption = some made ↔
        type.construct shape message cause = .ok made := by
    cases type.construct shape message cause <;> simp [Except.toOption]
  simp only [Option.eq_none_iff_forall_ne_some, ne_eq, hsome]
  exact Iff.rfl

/-- Some constructor is the first that succeeds as soon as one succeeds. -/
theorem exists_firstBuilds_iff :
    (∃ e, type.FirstBuilds message cause e) ↔
      ∃ shape made, type.construct shape message cause = .ok made := by
  constructor
  · rintro ⟨e, -, shape, -, -, hmade, -⟩
    exact ⟨shape, e, hmade⟩
  · rintro ⟨shape, made, hmade⟩
    have hfound : (probe type message cause ConstructorShape.probeOrder).isSome = true := by
      rw [probe_eq_findSome?, List.findSome?_isSome_iff]
      exact ⟨shape, shape.mem_probeOrder, by rw [hmade]; rfl⟩
    obtain ⟨e, he⟩ := Option.isSome_iff_exists.mp hfound
    exact ⟨e, probe_eq_some_iff.mp he⟩

/-! ## One link -/

variable {host : HostRegistry}

theorem rebuildLink_eq_some_iff {l : Link} {e : LiveException} :
    rebuildLink host l cause = some e ↔
      ∃ type made, host.exceptionType? l.className = some type ∧
        type.FirstBuilds l.message cause made ∧ e = made.withFrames l.frames := by
  unfold rebuildLink
  simp only [Option.bind_eq_bind, Option.pure_def, Option.bind_eq_some_iff, probe_eq_some_iff,
    Option.some.injEq]
  constructor
  · rintro ⟨type, htype, made, hmade, rfl⟩
    exact ⟨type, made, htype, hmade, rfl⟩
  · rintro ⟨type, made, htype, hmade, rfl⟩
    exact ⟨type, htype, made, hmade, rfl⟩

/-- What caused the exception. -/
def cause? (d : Descriptor) : Option Descriptor :=
  match d.causes with
  | [] => none
  | l :: later => some ⟨l, later⟩

/-- An exception is rebuilt over its cause, which is rebuilt before. -/
theorem rebuild_eq (d : Descriptor) :
    d.rebuild host =
      match rebuildLink host d.link (d.cause?.map (rebuild host)) with
      | some e => .live e
      | none => .described d := by
  obtain ⟨l, causes⟩ := d
  cases causes with
  | nil => rfl
  | cons c cs => rfl

theorem rebuild_eq_live_iff {d : Descriptor} {e : LiveException} :
    d.rebuild host = .live e ↔
      ∃ type made, host.exceptionType? d.link.className = some type ∧
        type.FirstBuilds d.link.message (d.cause?.map (rebuild host)) made ∧
        e = made.withFrames d.link.frames := by
  rw [← rebuildLink_eq_some_iff, rebuild_eq]
  cases rebuildLink host d.link (d.cause?.map (rebuild host)) <;> simp

theorem rebuild_described {d kept : Descriptor} (h : d.rebuild host = .described kept) :
    kept = d := by
  rw [rebuild_eq] at h
  cases hlink : rebuildLink host d.link (d.cause?.map (rebuild host)) with
  | some e =>
    rw [hlink] at h
    cases h
  | none =>
    rw [hlink] at h
    cases h
    rfl

end Descriptor

/-! ## Chains under conventional constructors -/

/-- Every exception type stands under its own name and has the conventional constructors. -/
def HostRegistry.Conventional (r : HostRegistry) : Prop :=
  ∀ name type, r.exceptionType? name = some type → type = .standard name

theorem HostRegistry.standard_conventional : HostRegistry.standard.Conventional := by
  intro name type htype
  obtain ⟨c, hfind, hbody⟩ := Option.bind_eq_some_iff.mp htype
  obtain ⟨-, ⟨-, hexception⟩ | ⟨-, members, hhost⟩⟩ := standard_cases hfind
  · rw [hexception] at hbody
    exact (Option.some.inj hbody).symm
  · rw [hhost] at hbody
    cases hbody

/-- The conventional constructor of message and cause comes first, and keeps both. -/
theorem ExceptionType.standard_firstBuilds (name : String) (message : Option String)
    (cause : Option Throwable) :
    (ExceptionType.standard name).FirstBuilds message cause
      (LiveException.make name message cause) :=
  ⟨[], .messageCause, [.message, .cause, .noArgs], rfl, rfl, by simp⟩

/-- The part of a chain from one of its links on. -/
def CauseChain.drop (chain : CauseChain) (n : Nat) : CauseChain :=
  ⟨chain.live.drop n, chain.described.drop (n - chain.live.length)⟩

namespace Throwable

/-- The throwable that so many steps from cause to cause lead to. -/
def causeAt? (t : Throwable) : Nat → Option Throwable
  | 0 => some t
  | n + 1 => t.cause?.bind fun cause => cause.causeAt? n

theorem ofCause_cause? (t : Throwable) : CauseChain.ofCause t.cause? = t.chain.drop 1 := by
  have hfirst (live described : List Link) :
      CauseChain.ofCause (CauseChain.mk live described).first? = ⟨live, described⟩ := by
    cases live with
    | cons l ls => rfl
    | nil => cases described <;> rfl
  cases t with
  | live e =>
    obtain ⟨l, ⟨live, described⟩⟩ := e
    refine (hfirst live described).trans ?_
    unfold chain CauseChain.ofCause CauseChain.drop
    rw [List.length_cons, Nat.sub_eq_zero_of_le (Nat.le_add_left 1 _)]
    rfl
  | described d => exact hfirst [] d.causes

theorem causeAt?_eq (t : Throwable) (n : Nat) : t.causeAt? n = (t.chain.drop n).first? := by
  induction n generalizing t with
  | zero =>
    unfold CauseChain.drop
    rw [Nat.zero_sub, List.drop_zero, List.drop_zero]
    exact (CauseChain.first?_ofCause (some t)).symm
  | succ n ih =>
    have hcause := ofCause_cause? t
    unfold causeAt?
    cases hnext : t.cause? with
    | none =>
      rw [hnext] at hcause
      injection hcause with hlive hdescribed
      rw [Option.bind_none, CauseChain.drop, Nat.add_comm, ← List.drop_drop, ← hlive]
      have hnone : t.chain.described.drop (1 + n - t.chain.live.length) = [] := by
        rw [List.drop_eq_nil_iff]
        have hlength := List.drop_eq_nil_iff.mp hdescribed.symm
        omega
      rw [hnone, List.drop_nil]
      rfl
    | some cause =>
      rw [Option.bind_some, ih cause]
      rw [hnext] at hcause
      have hdrop : (t.chain.drop 1).drop n = t.chain.drop (n + 1) := by
        simp only [CauseChain.drop, List.drop_drop, List.length_drop]
        congr 2
        · omega
        · omega
      rw [← hdrop, ← hcause]
      rfl

end Throwable

namespace Descriptor

variable {host : HostRegistry}

/-- The place of the first link whose class is no exception type of the host; behind the last link
if there is none. -/
def firstUnknown (host : HostRegistry) (links : List Link) : Nat :=
  links.findIdx fun l => (host.exceptionType? l.className).isNone

theorem firstUnknown_cons (l : Link) (links : List Link) :
    firstUnknown host (l :: links) =
      if (host.exceptionType? l.className).isNone then 0 else firstUnknown host links + 1 := by
  unfold firstUnknown
  rw [List.findIdx_cons]
  cases (host.exceptionType? l.className).isNone <;> rfl

theorem rebuildLink_unknown {l : Link} (h : host.exceptionType? l.className = none)
    (cause : Option Throwable) : rebuildLink host l cause = none := by
  unfold rebuildLink
  rw [h]
  rfl

/-- A link whose class is known is rebuilt as it was. -/
theorem rebuildLink_known (hhost : host.Conventional) {l : Link} {type : ExceptionType}
    (h : host.exceptionType? l.className = some type) (cause : Option Throwable) :
    rebuildLink host l cause = some ⟨l, CauseChain.ofCause cause⟩ := by
  rw [rebuildLink_eq_some_iff]
  refine ⟨type, LiveException.make l.className l.message cause, h, ?_, rfl⟩
  rw [hhost _ _ h]
  exact ExceptionType.standard_firstBuilds _ _ _

/-- The links in front of the first unknown class are live, those from it on are described. -/
theorem chain_rebuildChain (hhost : host.Conventional) (l : Link) (causes : List Link) :
    (rebuildChain host l causes).chain =
      ⟨(l :: causes).take (firstUnknown host (l :: causes)),
        (l :: causes).drop (firstUnknown host (l :: causes))⟩ := by
  induction causes generalizing l with
  | nil =>
    unfold rebuildChain
    rw [firstUnknown_cons]
    cases htype : host.exceptionType? l.className with
    | none =>
      rw [rebuildLink_unknown htype]
      rfl
    | some type =>
      rw [rebuildLink_known hhost htype]
      rfl
  | cons c cs ih =>
    unfold rebuildChain
    rw [firstUnknown_cons]
    cases htype : host.exceptionType? l.className with
    | none =>
      rw [rebuildLink_unknown htype]
      rfl
    | some type =>
      rw [rebuildLink_known hhost htype]
      have hlater := ih c
      unfold Throwable.chain at hlater
      show CauseChain.mk (l :: (CauseChain.ofCause (some (rebuildChain host c cs))).live)
        (CauseChain.ofCause (some (rebuildChain host c cs))).described = _
      rw [hlater]
      rfl

theorem chain_rebuild (hhost : host.Conventional) (d : Descriptor) :
    (d.rebuild host).chain = ⟨d.chain.take (firstUnknown host d.chain),
      d.chain.drop (firstUnknown host d.chain)⟩ :=
  chain_rebuildChain hhost d.link d.causes

/-- The links of a rebuilt chain, as they are met from cause to cause. -/
theorem causeAt?_rebuild (hhost : host.Conventional) (d : Descriptor) {i : Nat} {l : Link}
    (hlink : d.chain[i]? = some l) :
    if i < firstUnknown host d.chain then
      ∃ causes, (d.rebuild host).causeAt? i = some (.live ⟨l, causes⟩)
    else (d.rebuild host).causeAt? i = some (.described ⟨l, d.chain.drop (i + 1)⟩) := by
  rw [Throwable.causeAt?_eq, chain_rebuild hhost]
  generalize firstUnknown host d.chain = n
  obtain ⟨hi, rfl⟩ := List.getElem?_eq_some_iff.mp hlink
  unfold CauseChain.drop
  split
  · rename_i hin
    have hlive : i < (d.chain.take n).length := by rw [List.length_take]; omega
    rw [List.drop_eq_getElem_cons hlive, List.getElem_take]
    exact ⟨_, rfl⟩
  · rename_i hin
    have hlive : (d.chain.take n).drop i = [] := by
      rw [List.drop_eq_nil_iff, List.length_take]
      omega
    have hdescribed : (d.chain.drop n).drop (i - (d.chain.take n).length) =
        d.chain[i] :: d.chain.drop (i + 1) := by
      rw [List.drop_drop, List.length_take, show n + (i - min n d.chain.length) = i by omega,
        List.drop_eq_getElem_cons hi]
    rw [hlive, hdescribed]
    rfl

theorem causeAt?_rebuild_length (hhost : host.Conventional) (d : Descriptor) :
    (d.rebuild host).causeAt? d.chain.length = none := by
  rw [Throwable.causeAt?_eq, chain_rebuild hhost]
  unfold CauseChain.drop
  rw [List.drop_eq_nil_iff.mpr (by rw [List.length_take]; omega),
    List.drop_eq_nil_iff.mpr (by rw [List.length_take, List.length_drop]; omega)]
  rfl

/-- The names that a trace prints: those of the links in front, then the generic one. -/
theorem printed_links (n : Nat) (links : List Link) :
    links.take n ++ (links.drop n).map (fun l => { l with className := Throwable.genericName }) =
      links.mapIdx fun i l =>
        { l with className := if i < n then l.className else Throwable.genericName } := by
  induction links generalizing n with
  | nil => simp
  | cons l links ih =>
    rw [List.mapIdx_cons]
    cases n with
    | zero => simpa using ih 0
    | succ n => simpa using ih n

/-- The trace of a rebuilt chain has a part for every link. -/
theorem trace_rebuild (hhost : host.Conventional) (d : Descriptor) :
    (d.rebuild host).trace =
      "Caused by: ".intercalate (d.chain.mapIdx fun i l =>
        headerText (if i < firstUnknown host d.chain then l.className else Throwable.genericName)
            l.message ++ "\n" ++
          String.join (l.frames.map fun f => "\tat " ++ f.render ++ "\n")) := by
  unfold Throwable.trace Throwable.printedChain
  rw [chain_rebuild hhost, printed_links]
  congr 1
  apply List.ext_getElem?
  intro i
  rw [List.getElem?_map, List.getElem?_mapIdx, List.getElem?_mapIdx, Option.map_map]
  rfl

/-- **Rebuilding.**  For every host and every chain:
- a live exception comes of it exactly if its class is an exception type of the host and some
  constructor of the type succeeds on its message and its rebuilt cause;
- it is then what the first such constructor builds, with the stack trace of the description;
- otherwise the description is kept as it is.

Where all exception types are conventional, the links in front of the first one of an unknown
class are live, with class, message and frames as they were; the chain from that link on is
the one described; and the trace prints every link in order, from there on under the generic
name. -/
theorem rebuild_whole_chain (host : HostRegistry) (d : Descriptor) :
    let cause := d.cause?.map (rebuild host)
    let known := firstUnknown host d.chain
    ((∃ e, d.rebuild host = .live e) ↔
      ∃ type shape made, host.exceptionType? d.link.className = some type ∧
        type.construct shape d.link.message cause = .ok made) ∧
    (∀ e, d.rebuild host = .live e ↔
      ∃ type made, host.exceptionType? d.link.className = some type ∧
        type.FirstBuilds d.link.message cause made ∧ e = made.withFrames d.link.frames) ∧
    (∀ kept, d.rebuild host = .described kept → kept = d) ∧
    (host.Conventional →
      (∀ i l, d.chain[i]? = some l →
        if i < known then ∃ causes, (d.rebuild host).causeAt? i = some (.live ⟨l, causes⟩)
        else (d.rebuild host).causeAt? i = some (.described ⟨l, d.chain.drop (i + 1)⟩)) ∧
      (d.rebuild host).causeAt? d.chain.length = none ∧
      (d.rebuild host).trace =
        "Caused by: ".intercalate (d.chain.mapIdx fun i l =>
          headerText (if i < known then l.className else Throwable.genericName) l.message ++
            "\n" ++ String.join (l.frames.map fun f => "\tat " ++ f.render ++ "\n"))) := by
  intro cause known
  refine ⟨?_, fun e => rebuild_eq_live_iff, fun kept => rebuild_described, fun hhost =>
    ⟨fun i l => causeAt?_rebuild hhost d, causeAt?_rebuild_length hhost d,
      trace_rebuild hhost d⟩⟩
  simp only [rebuild_eq_live_iff]
  constructor
  · rintro ⟨e, type, made, htype, hmade, -⟩
    obtain ⟨shape, built, hbuilt⟩ := exists_firstBuilds_iff.mp ⟨made, hmade⟩
    exact ⟨type, shape, built, htype, hbuilt⟩
  · rintro ⟨type, shape, built, htype, hbuilt⟩
    obtain ⟨made, hmade⟩ := exists_firstBuilds_iff.mpr ⟨shape, built, hbuilt⟩
    exact ⟨_, type, made, htype, hmade, rfl⟩

/-- Two exceptions that the host knows, over one that it does not know, over one more. -/
def unknownInside : Descriptor where
  link := ⟨"lang.IllegalStateException", some "outer", [⟨"A", "f", some "#1", some 2⟩]⟩
  causes :=
    [⟨"lang.ArithmeticException", some "/ by zero", []⟩, ⟨"app.Missing", some "inner", []⟩,
      ⟨"lang.Exception", none, [⟨"B", "g", none, none⟩]⟩]

/-- The chain is rebuilt up to the unknown class, and the trace shows all of it. -/
theorem rebuild_whole_chain_unknown :
    (∃ causes, (unknownInside.rebuild .standard).causeAt? 1 =
      some (.live ⟨⟨"lang.ArithmeticException", some "/ by zero", []⟩, causes⟩)) ∧
    (unknownInside.rebuild .standard).causeAt? 2 =
      some (.described ⟨⟨"app.Missing", some "inner", []⟩,
        [⟨"lang.Exception", none, [⟨"B", "g", none, none⟩]⟩]⟩) ∧
    (unknownInside.rebuild .standard).trace =
      "lang.IllegalStateException: outer\n\tat A.f(#1:2)\n" ++
      "Caused by: lang.ArithmeticException: / by zero\n" ++
      "Caused by: kiln.EvalException: inner\n" ++
      "Caused by: kiln.EvalException\n\tat B.g(Unknown Source)\n" := by
  have hknown : firstUnknown .standard unknownInside.chain = 2 := by decide +kernel
  obtain ⟨-, -, -, hchain⟩ := rebuild_whole_chain .standard unknownInside
  obtain ⟨hlinks, -, htrace⟩ := hchain HostRegistry.standard_conventional
  rw [hknown] at hlinks htrace
  exact ⟨hlinks 1 _ rfl, hlinks 2 _ rfl, htrace.trans (by decide +kernel)⟩

end Descriptor

end ReplEngine
