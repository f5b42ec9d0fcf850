import BotScript.Machine.Basic
import BotScript.Proofs.Program.Lowering

/-!
# Where the instructions of a script stand

Each instruction of a compiled script comes from some place in the tree of statements. Its site
tells which `until` loops are around it there, up to the block definition it is in, and whether it
is the jump back at the end of such a loop. Control flow respects sites: as long as no call, no
return and no `until` is passed, an instruction leads to one that stands in the same loops of the
same block.

## Main definitions

* `Statement.size`: the number of instructions of a statement.
* `Region`, `Site`: where an instruction stands.
* `Statement.sites`, `Script.siteAt`: the sites of the instructions of a script.
* `Obeys`: an instruction leads where its site allows.

## Main results

* `Lowers.obeys`: all instructions of compiled code lead where their sites allow.
* `Lowers.marked`: the exit of every loop around an instruction lies behind the jump
  back of that loop.
-/

namespace BotScript

/-! ### Sizes -/

/-- The number of instructions of a command. -/
def Command.size (c : Command) : Nat :=
  match c.kind with
  | .act (.waitFor ⟨_, true⟩) => 2
  | _ => 1

theorem Command.size_pos (c : Command) : 0 < c.size := by
  unfold Command.size
  split <;> decide

theorem Command.length_of_code {c : Command} {code : List Instruction} (h : c.code = .ok code) :
    code.length = c.size := by
  unfold Command.code at h
  unfold Command.size
  split at h <;> cases h <;> rename_i hkind <;> rw [hkind]
  · rfl
  · rfl
  · rfl
  · rfl
  · unfold Action.code
    split <;> simp_all
  · rfl

mutual

/-- The number of instructions of a statement. -/
def Statement.size : Statement → Nat
  | .list body => sizeAll body
  | .command c => c.size
  | .block _ body => sizeAll body + 4
  | .branch _ yes no => sizeAll no + sizeAll yes + 3
  | .whileLoop _ body | .untilLoop _ body => sizeAll body + 3
  | .loop body => sizeAll body + 1
  | .call _ => 2
  | .assign .. | .decrement _ => 1

/-- The number of instructions of some statements. -/
def Statement.sizeAll : List Statement → Nat
  | [] => 0
  | s :: rest => s.size + sizeAll rest

end

open Statement

theorem Lowers.length_eq {s : Script} {c : List Instruction} (h : Lowers s c) :
    c.length = sizeAll s := by
  induction h with
  | nil => rfl
  | command hcode _ ih => simp [sizeAll, size, Command.length_of_code hcode, ih]
  | _ => simp_all [sizeAll, size] <;> omega

/-! ### Sites -/

/-- A region of a script: the `until` loops that are run there, innermost first, up to the block
definition around it, and whether there is one. -/
structure Region where
  loops : List UntilGuard
  inBlock : Bool

namespace Region

/-- The region of the script outside all loops and blocks. -/
def top : Region := ⟨[], false⟩

/-- The region of a block outside its loops. -/
def block : Region := ⟨[], true⟩

/-- The region of the body of an `until` loop. -/
def enter (r : Region) (g : UntilGuard) : Region := { r with loops := g :: r.loops }

end Region

/-- Where an instruction stands: its region, and whether it is the jump back of an `until` loop. -/
structure Site extends Region where
  closing : Bool

/-- The site of an instruction of a region that is no jump back of an `until` loop. -/
def Region.site (r : Region) : Site := ⟨r, false⟩

mutual

/-- The sites of the instructions of a statement, the first of which is at a given
place, in a region. -/
def Statement.sites (base : Nat) (around : Region) : Statement → List Site
  | .list body => sitesAll base around body
  | .command c => List.replicate c.size around.site
  | .block _ body =>
    around.site :: Region.block.site ::
      (sitesAll (base + 1 + 1) .block body ++ [Region.block.site, around.site])
  | .branch _ yes no =>
    around.site :: (sitesAll (base + 1) around no ++
      around.site :: (sitesAll (base + 1 + sizeAll no + 1) around yes ++ [around.site]))
  | .whileLoop _ body =>
    around.site :: (sitesAll (base + 1) around body ++ [around.site, around.site])
  | .untilLoop test body =>
    let inner := around.enter ⟨test, base + 1 + sizeAll body + 1⟩
    around.site :: (sitesAll (base + 1) inner body ++ [⟨inner, true⟩, around.site])
  | .loop body => sitesAll base around body ++ [around.site]
  | .call _ => [around.site, around.site]
  | .assign .. | .decrement _ => [around.site]

/-- The sites of the instructions of some statements. -/
def Statement.sitesAll (base : Nat) (around : Region) : List Statement → List Site
  | [] => []
  | s :: rest => sites base around s ++ sitesAll (base + s.size) around rest

end

/-- The site of the instruction at a place of the code of a script. Behind the code, the script is
outside all loops and blocks. -/
def Script.siteAt (s : Script) (place : Nat) : Site :=
  ((sitesAll 0 .top s)[place]?).getD Region.top.site

mutual

theorem Statement.length_sites (base : Nat) (around : Region) :
    (s : Statement) → (s.sites base around).length = s.size
  | .list body => Statement.length_sitesAll base around body
  | .command c => List.length_replicate
  | .block _ body => by simp [sites, size, Statement.length_sitesAll _ _ body]
  | .branch _ yes no => by
    simp [sites, size, Statement.length_sitesAll _ _ yes, Statement.length_sitesAll _ _ no]
    omega
  | .whileLoop _ body => by simp [sites, size, Statement.length_sitesAll _ _ body]
  | .untilLoop _ body => by simp [sites, size, Statement.length_sitesAll _ _ body]
  | .loop body => by simp [sites, size, Statement.length_sitesAll _ _ body]
  | .call _ => rfl
  | .assign .. => rfl
  | .decrement _ => rfl

@[simp] theorem Statement.length_sitesAll (base : Nat) (around : Region) :
    (s : List Statement) → (sitesAll base around s).length = sizeAll s
  | [] => rfl
  | s :: rest => by
    rw [sitesAll, List.length_append, Statement.length_sites base around s,
      Statement.length_sitesAll _ around rest, sizeAll]

end

/-! ### Sites of parts of a script -/

section Framed

variable {site : Nat → Site} {base : Nat} {around : Region} {body rest : Script}

/-- Some sites are those at a place and behind it. -/
abbrev Fits (site : Nat → Site) : Nat → List Site → Prop := Along fun place x => site place = x

/-- A statement stands at a place, in a region that goes on behind it. -/
def FramedOne (site : Nat → Site) (base : Nat) (around : Region) (s : Statement) : Prop :=
  Fits site base (s.sites base around) ∧ (site (base + s.size)).toRegion = around

/-- Some statements stand at a place, in a region that goes on behind them. -/
def Framed (site : Nat → Site) (base : Nat) (around : Region) (s : Script) : Prop :=
  Fits site base (sitesAll base around s) ∧ (site (base + sizeAll s)).toRegion = around

mutual

/-- A statement begins in the region it stands in. -/
theorem FramedOne.entry {base : Nat} {around : Region} :
    {s : Statement} → FramedOne site base around s → (site base).toRegion = around
  | .list _, h => Framed.entry h
  | .command c, h => by
    obtain ⟨k, hk⟩ := Nat.exists_eq_add_one_of_ne_zero (Nat.ne_of_gt c.size_pos)
    have hfits := h.1
    rw [sites, hk, List.replicate_succ] at hfits
    exact congrArg Site.toRegion hfits.1
  | .block .., h => congrArg Site.toRegion h.1.1
  | .branch .., h => congrArg Site.toRegion h.1.1
  | .whileLoop .., h => congrArg Site.toRegion h.1.1
  | .untilLoop .., h => congrArg Site.toRegion h.1.1
  | .loop body, h => by
    have hfits := along_append.mp h.1
    rw [Statement.length_sitesAll] at hfits
    exact Framed.entry (s := body) ⟨hfits.1, congrArg Site.toRegion hfits.2.1⟩
  | .call _, h => congrArg Site.toRegion h.1.1
  | .assign .., h => congrArg Site.toRegion h.1.1
  | .decrement _, h => congrArg Site.toRegion h.1.1

theorem Framed.entry {base : Nat} {around : Region} :
    {s : Script} → Framed site base around s → (site base).toRegion = around
  | [], h => h.2
  | s :: rest, h => by
    have hfits := along_append.mp h.1
    rw [Statement.length_sites] at hfits
    have hrest : Framed site (base + s.size) around rest := ⟨hfits.2, by
      rw [Nat.add_assoc]
      exact h.2⟩
    exact FramedOne.entry ⟨hfits.1, Framed.entry hrest⟩

end

/-- The first of some statements, and the others. -/
theorem Framed.cons {s : Statement} (h : Framed site base around (s :: rest)) :
    FramedOne site base around s ∧ Framed site (base + s.size) around rest := by
  have hfits := along_append.mp h.1
  rw [Statement.length_sites] at hfits
  have hrest : Framed site (base + s.size) around rest := by
    refine ⟨hfits.2, ?_⟩
    rw [Nat.add_assoc]
    exact h.2
  exact ⟨⟨hfits.1, hrest.entry⟩, hrest⟩

/-- Behind a statement, the region goes on. -/
theorem FramedOne.exit {s : Statement} (h : FramedOne site base around s) {place : Nat}
    (hplace : place = base + s.size) : (site place).toRegion = around := by
  rw [hplace]
  exact h.2

theorem FramedOne.block {name : String} (h : FramedOne site base around (.block name body)) :
    site base = around.site ∧ site (base + 1) = Region.block.site ∧
      Framed site (base + 1 + 1) .block body ∧
      site (base + 1 + 1 + sizeAll body) = Region.block.site ∧
      site (base + 1 + 1 + sizeAll body + 1) = around.site := by
  obtain ⟨hskip, hlabel, hrest⟩ := h.1
  obtain ⟨hbody, hrest⟩ := along_append.mp hrest
  rw [Statement.length_sitesAll] at hrest
  obtain ⟨hret, hnop, -⟩ := hrest
  exact ⟨hskip, hlabel, ⟨hbody, congrArg Site.toRegion hret⟩, hret, hnop⟩

theorem FramedOne.branch {test : Expr} {yes no : Script}
    (h : FramedOne site base around (.branch test yes no)) :
    site base = around.site ∧ Framed site (base + 1) around no ∧
      site (base + 1 + sizeAll no) = around.site ∧
      Framed site (base + 1 + sizeAll no + 1) around yes ∧
      site (base + 1 + sizeAll no + 1 + sizeAll yes) = around.site := by
  obtain ⟨htest, hrest⟩ := h.1
  obtain ⟨hno, hrest⟩ := along_append.mp hrest
  rw [Statement.length_sitesAll] at hrest
  obtain ⟨hjump, hrest⟩ := hrest
  obtain ⟨hyes, hrest⟩ := along_append.mp hrest
  rw [Statement.length_sitesAll] at hrest
  obtain ⟨hnop, -⟩ := hrest
  exact ⟨htest, ⟨hno, congrArg Site.toRegion hjump⟩, hjump,
    ⟨hyes, congrArg Site.toRegion hnop⟩, hnop⟩

theorem FramedOne.whileLoop {test : Expr} (h : FramedOne site base around (.whileLoop test body)) :
    site base = around.site ∧ Framed site (base + 1) around body ∧
      site (base + 1 + sizeAll body) = around.site ∧
      site (base + 1 + sizeAll body + 1) = around.site := by
  obtain ⟨htest, hrest⟩ := h.1
  obtain ⟨hbody, hrest⟩ := along_append.mp hrest
  rw [Statement.length_sitesAll] at hrest
  obtain ⟨hback, hnop, -⟩ := hrest
  exact ⟨htest, ⟨hbody, congrArg Site.toRegion hback⟩, hback, hnop⟩

theorem FramedOne.untilLoop {test : Expr} (h : FramedOne site base around (.untilLoop test body)) :
    site base = around.site ∧
      Framed site (base + 1) (around.enter ⟨test, base + 1 + sizeAll body + 1⟩) body ∧
      site (base + 1 + sizeAll body) = ⟨around.enter ⟨test, base + 1 + sizeAll body + 1⟩, true⟩ ∧
      site (base + 1 + sizeAll body + 1) = around.site := by
  obtain ⟨henter, hrest⟩ := h.1
  obtain ⟨hbody, hrest⟩ := along_append.mp hrest
  rw [Statement.length_sitesAll] at hrest
  obtain ⟨hback, hnop, -⟩ := hrest
  exact ⟨henter, ⟨hbody, congrArg Site.toRegion hback⟩, hback, hnop⟩

theorem FramedOne.loop (h : FramedOne site base around (.loop body)) :
    Framed site base around body ∧ site (base + sizeAll body) = around.site := by
  obtain ⟨hbody, hrest⟩ := along_append.mp h.1
  rw [Statement.length_sitesAll] at hrest
  exact ⟨⟨hbody, congrArg Site.toRegion hrest.1⟩, hrest.1⟩

theorem FramedOne.command {c : Command} (h : FramedOne site base around (.command c)) {k : Nat}
    (hk : k < c.size) : site (base + k) = around.site :=
  along_iff_getElem?.mp h.1 k around.site (by simp [sites, hk])

/-- A script stands at the beginning of its own code. -/
theorem Script.framed (s : Script) : Framed s.siteAt 0 .top s := by
  constructor
  · refine along_iff_getElem?.mpr fun i x hx => ?_
    rw [Nat.zero_add, Script.siteAt, hx]
    rfl
  · rw [Nat.zero_add, Script.siteAt, List.getElem?_eq_none (by simp)]
    rfl

end Framed

/-! ### Control flow respects sites -/

section Obeys

variable {site : Nat → Site}

/-- Two places are in the same region. -/
def Level (site : Nat → Site) (a b : Nat) : Prop := (site a).toRegion = (site b).toRegion

/-- Where an offset leads, the region is the same. -/
def LevelJump (site : Nat → Site) (place : Nat) (offset : Int64) : Prop :=
  ∀ target : Nat, (place : Int) + offset.toInt = target → Level site target place

/-- An instruction leads where its site allows. -/
def Obeys (site : Nat → Site) (place : Nat) : Instruction → Prop
  | .kill => True
  | .sleep _ | .logLiteral _ | .logWindow .. | .act .. | .loadPlaystyle .. | .assign
    .. | .decrement _
  | .nop | .call _ => Level site (place + 1) place
  | .label _ => (site place).toRegion = .block ∧ Level site (place + 1) place
  | .ret => (site place).toRegion = .block
  | .jumpIf _ offset | .jumpIfNot _ offset =>
    Level site (place + 1) place ∧ LevelJump site place offset
  | .enterUntil test offset => ∀ target : Nat, (place : Int) + offset.toInt = target →
    (site (place + 1)).toRegion = (site place).toRegion.enter ⟨test, target⟩
  | .jump offset => LevelJump site place offset ∧ ((site place).closing = true →
    ∃ g : UntilGuard, g.exit = place + 1 ∧
      (site place).toRegion = (site (place + 1)).toRegion.enter g)

/-- The instructions of a command are plain, so a region that goes on behind them is obeyed. -/
theorem Command.obeys {c : Command} {code : List Instruction} (hcode : c.code = .ok code)
    {base : Nat} (h : ∀ k, k < code.length → Level site (base + k + 1) (base + k)) :
    Along (Obeys site) base code := by
  rw [along_iff_getElem?]
  intro k i hi
  have hlevel := h k (List.getElem?_eq_some_iff.mp hi).1
  have hmem := List.mem_of_getElem? hi
  unfold Command.code at hcode
  split at hcode <;> cases hcode
  · cases List.mem_singleton.mp hmem
    trivial
  · cases List.mem_singleton.mp hmem
    exact hlevel
  · cases List.mem_singleton.mp hmem
    exact hlevel
  · cases List.mem_singleton.mp hmem
    exact hlevel
  · unfold Action.code at hmem
    split at hmem
    · simp only [List.mem_cons, List.not_mem_nil, or_false] at hmem
      rcases hmem with rfl | rfl
      · exact hlevel
      · exact hlevel
    · cases List.mem_singleton.mp hmem
      exact hlevel
  · cases List.mem_singleton.mp hmem
    exact hlevel

/-- Places of the same region are level. -/
theorem level_of_eq {a b : Nat} {r : Region} (ha : (site a).toRegion = r)
    (hb : (site b).toRegion = r) :
    Level site a b :=
  ha.trans hb.symm

/-- All instructions of compiled code lead where their sites allow. -/
theorem Lowers.obeys {s : Script} {c : List Instruction} (h : Lowers s c) {base : Nat}
    {around : Region} (hframed : Framed site base around s) : Along (Obeys site) base c := by
  -- In each case: where the parts of the statement stand, then its own instructions one by one.
  induction h generalizing base around with
  | nil => trivial
  | list hbody _ ihbody ihrest =>
    obtain ⟨hone, hothers⟩ := hframed.cons
    rw [along_append, hbody.length_eq]
    exact ⟨ihbody hone, ihrest hothers⟩
  | @command cmd rest c cs hcode _ ihrest =>
    obtain ⟨hone, hothers⟩ := hframed.cons
    have hlength := Command.length_of_code hcode
    rw [along_append, hlength]
    refine ⟨Command.obeys hcode fun k hk => ?_, ihrest hothers⟩
    rw [hlength] at hk
    have hregion : (site (base + k)).toRegion = around := congrArg Site.toRegion (hone.command hk)
    refine level_of_eq ?_ hregion
    by_cases hlast : k + 1 < cmd.size
    · exact congrArg Site.toRegion (hone.command hlast)
    · exact hone.exit (by simp only [size]; omega)
  | @block name body rest c cs skip hbody hskip _ ihbody ihrest =>
    obtain ⟨hone, hothers⟩ := hframed.cons
    obtain ⟨hsiteSkip, hsiteLabel, hinner, hsiteRet, hsiteNop⟩ := hone.block
    have hlength := hbody.length_eq
    simp only [along_append, along_cons, along_nil, and_true, List.length_cons, List.length_append,
      List.length_nil, hlength]
    refine ⟨⟨⟨?_, ?_⟩, ⟨?_, ?_⟩, ihbody hinner, ?_, ?_⟩, ihrest hothers⟩
    · intro target htarget
      obtain rfl : target = base + 1 + 1 + sizeAll body + 1 := by omega
      rw [Level, hsiteNop, hsiteSkip]
    · rw [hsiteSkip]
      simp [Region.site]
    · rw [hsiteLabel]
      rfl
    · exact level_of_eq hinner.entry (congrArg Site.toRegion hsiteLabel)
    · exact congrArg Site.toRegion hsiteRet
    · exact level_of_eq (hone.exit (by simp only [size]; omega)) (congrArg Site.toRegion hsiteNop)
  | @branch test yes no rest cy cn cs toYes toEnd hno hyes htoYes htoEnd _ ihno ihyes ihrest =>
    obtain ⟨hone, hothers⟩ := hframed.cons
    obtain ⟨hsiteTest, hframedNo, hsiteJump, hframedYes, hsiteNop⟩ := hone.branch
    have hlengthNo := hno.length_eq
    have hlengthYes := hyes.length_eq
    simp only [along_append, along_cons, along_nil, and_true, List.length_cons, List.length_append,
      List.length_nil, hlengthNo, hlengthYes]
    refine ⟨⟨⟨?_, ?_⟩, ihno hframedNo, ⟨?_, ?_⟩, ihyes hframedYes, ?_⟩, ?_⟩
    · exact level_of_eq hframedNo.entry (congrArg Site.toRegion hsiteTest)
    · intro target htarget
      obtain rfl : target = base + 1 + sizeAll no + 1 := by omega
      exact level_of_eq hframedYes.entry (congrArg Site.toRegion hsiteTest)
    · intro target htarget
      obtain rfl : target = base + 1 + sizeAll no + 1 + sizeAll yes := by omega
      rw [Level, hsiteNop, hsiteJump]
    · rw [hsiteJump]
      simp [Region.site]
    · exact level_of_eq (hone.exit (by simp only [size]; omega)) (congrArg Site.toRegion hsiteNop)
    · exact ihrest hothers
  | @whileLoop test body rest c cs toEnd back hbody htoEnd hback _ ihbody ihrest =>
    obtain ⟨hone, hothers⟩ := hframed.cons
    obtain ⟨hsiteTest, hinner, hsiteBack, hsiteNop⟩ := hone.whileLoop
    have hlength := hbody.length_eq
    simp only [along_append, along_cons, along_nil, and_true, List.length_cons, List.length_append,
      List.length_nil, hlength]
    refine ⟨⟨⟨?_, ?_⟩, ihbody hinner, ⟨?_, ?_⟩, ?_⟩, ihrest hothers⟩
    · exact level_of_eq hinner.entry (congrArg Site.toRegion hsiteTest)
    · intro target htarget
      obtain rfl : target = base + 1 + sizeAll body + 1 := by omega
      rw [Level, hsiteNop, hsiteTest]
    · rw [Level, hsiteNop, hsiteBack]
    · intro target htarget
      obtain rfl : target = base + 1 := by omega
      exact level_of_eq hinner.entry (congrArg Site.toRegion hsiteBack)
    · exact level_of_eq (hone.exit (by simp only [size]; omega)) (congrArg Site.toRegion hsiteNop)
  | @untilLoop test body rest c cs toEnd back hbody htoEnd hback _ ihbody ihrest =>
    obtain ⟨hone, hothers⟩ := hframed.cons
    obtain ⟨hsiteEnter, hinner, hsiteBack, hsiteNop⟩ := hone.untilLoop
    have hlength := hbody.length_eq
    simp only [along_append, along_cons, along_nil, and_true, List.length_cons, List.length_append,
      List.length_nil, hlength]
    refine ⟨⟨?_, ihbody hinner, ⟨?_, ?_⟩, ?_⟩, ihrest hothers⟩
    · intro target htarget
      obtain rfl : target = base + 1 + sizeAll body + 1 := by omega
      rw [hinner.entry, hsiteEnter]
      rfl
    · intro target htarget
      obtain rfl : target = base + 1 := by omega
      exact level_of_eq hinner.entry (congrArg Site.toRegion hsiteBack)
    · intro _
      refine ⟨⟨test, base + 1 + sizeAll body + 1⟩, rfl, ?_⟩
      rw [hsiteBack, hsiteNop]
      rfl
    · exact level_of_eq (hone.exit (by simp only [size]; omega)) (congrArg Site.toRegion hsiteNop)
  | @loop body rest c cs back hbody hback _ ihbody ihrest =>
    obtain ⟨hone, hothers⟩ := hframed.cons
    obtain ⟨hinner, hsiteBack⟩ := hone.loop
    have hlength := hbody.length_eq
    simp only [along_append, along_cons, along_nil, and_true, List.length_cons, List.length_append,
      List.length_nil, hlength]
    refine ⟨⟨ihbody hinner, ?_, ?_⟩, ihrest hothers⟩
    · intro target htarget
      obtain rfl : target = base := by omega
      exact level_of_eq hinner.entry (congrArg Site.toRegion hsiteBack)
    · rw [hsiteBack]
      simp [Region.site]
  | call _ ihrest =>
    obtain ⟨hone, hothers⟩ := hframed.cons
    obtain ⟨hsiteCall, hsiteNop, -⟩ := hone.1
    refine ⟨?_, ?_, ihrest hothers⟩
    · exact level_of_eq (congrArg Site.toRegion hsiteNop) (congrArg Site.toRegion hsiteCall)
    · exact level_of_eq (hone.exit rfl) (congrArg Site.toRegion hsiteNop)
  | assign _ ihrest =>
    obtain ⟨hone, hothers⟩ := hframed.cons
    exact ⟨level_of_eq hone.2 hone.entry, ihrest hothers⟩
  | decrement _ ihrest =>
    obtain ⟨hone, hothers⟩ := hframed.cons
    exact ⟨level_of_eq hone.2 hone.entry, ihrest hothers⟩

/-! ### Loops and their jumps back -/

/-- The exit of a loop lies behind the jump back of a loop. -/
def Marked (site : Nat → Site) (g : UntilGuard) : Prop :=
  ∃ place, g.exit = place + 1 ∧ (site place).closing = true

/-- The exits of all loops of a region lie behind jumps back. -/
def Region.Marked (site : Nat → Site) (r : Region) : Prop := ∀ g ∈ r.loops, BotScript.Marked site g

theorem Region.Marked.at_place {r : Region} (hr : r.Marked site) {place : Nat}
    (h : (site place).toRegion = r) : (site place).Marked site := by
  rw [h]
  exact hr

/-- The loops around the instructions of compiled code are marked by their jumps back, if those
around the code are. -/
theorem Lowers.marked {s : Script} {c : List Instruction} (h : Lowers s c) {base : Nat}
    {around : Region} (hframed : Framed site base around s) (haround : around.Marked site) :
    Along (fun place _ => (site place).Marked site) base c := by
  induction h generalizing base around with
  | nil => trivial
  | list hbody _ ihbody ihrest =>
    obtain ⟨hone, hothers⟩ := hframed.cons
    rw [along_append, hbody.length_eq]
    exact ⟨ihbody hone haround, ihrest hothers haround⟩
  | @command cmd rest c cs hcode _ ihrest =>
    obtain ⟨hone, hothers⟩ := hframed.cons
    rw [along_append, Command.length_of_code hcode]
    refine ⟨along_iff_getElem?.mpr ?_, ihrest hothers haround⟩
    intro k i hi
    have hk := (List.getElem?_eq_some_iff.mp hi).1
    rw [Command.length_of_code hcode] at hk
    rw [hone.command hk]
    exact haround
  | @block name body rest c cs skip hbody _ _ ihbody ihrest =>
    obtain ⟨hone, hothers⟩ := hframed.cons
    obtain ⟨hsiteSkip, hsiteLabel, hinner, hsiteRet, hsiteNop⟩ := hone.block
    have hblock : Region.block.Marked site := by
      intro g hg
      cases hg
    simp only [along_append, along_cons, along_nil, and_true, List.length_cons, List.length_append,
      List.length_nil, hbody.length_eq, hsiteSkip, hsiteLabel, hsiteRet, hsiteNop]
    exact ⟨⟨haround, hblock, ihbody hinner hblock, hblock, haround⟩, ihrest hothers haround⟩
  | @branch test yes no rest cy cn cs toYes toEnd hno hyes _ _ _ ihno ihyes ihrest =>
    obtain ⟨hone, hothers⟩ := hframed.cons
    obtain ⟨hsiteTest, hframedNo, hsiteJump, hframedYes, hsiteNop⟩ := hone.branch
    simp only [along_append, along_cons, along_nil, and_true, List.length_cons, List.length_append,
      List.length_nil, hno.length_eq, hyes.length_eq, hsiteTest, hsiteJump, hsiteNop]
    exact ⟨⟨haround, ihno hframedNo haround, haround, ihyes hframedYes haround, haround⟩,
      ihrest hothers haround⟩
  | @whileLoop test body rest c cs toEnd back hbody _ _ _ ihbody ihrest =>
    obtain ⟨hone, hothers⟩ := hframed.cons
    obtain ⟨hsiteTest, hinner, hsiteBack, hsiteNop⟩ := hone.whileLoop
    simp only [along_append, along_cons, along_nil, and_true, List.length_cons, List.length_append,
      List.length_nil, hbody.length_eq, hsiteTest, hsiteBack, hsiteNop]
    exact ⟨⟨haround, ihbody hinner haround, haround, haround⟩, ihrest hothers haround⟩
  | @untilLoop test body rest c cs toEnd back hbody _ _ _ ihbody ihrest =>
    obtain ⟨hone, hothers⟩ := hframed.cons
    obtain ⟨hsiteEnter, hinner, hsiteBack, hsiteNop⟩ := hone.untilLoop
    -- The loop itself is marked by its own jump back; the loops around it are those
    -- around the statement.
    have hentered : (around.enter ⟨test, base + 1 + sizeAll body + 1⟩).Marked site := by
      intro g hg
      rcases List.mem_cons.mp hg with rfl | hg
      · exact ⟨base + 1 + sizeAll body, rfl, by rw [hsiteBack]⟩
      · exact haround g hg
    simp only [along_append, along_cons, along_nil, and_true, List.length_cons, List.length_append,
      List.length_nil, hbody.length_eq, hsiteEnter, hsiteBack, hsiteNop]
    exact ⟨⟨haround, ihbody hinner hentered, hentered, haround⟩, ihrest hothers haround⟩
  | @loop body rest c cs back hbody _ _ ihbody ihrest =>
    obtain ⟨hone, hothers⟩ := hframed.cons
    obtain ⟨hinner, hsiteBack⟩ := hone.loop
    simp only [along_append, along_cons, along_nil, and_true, List.length_cons, List.length_append,
      List.length_nil, hbody.length_eq, hsiteBack]
    exact ⟨⟨ihbody hinner haround, haround⟩, ihrest hothers haround⟩
  | call _ ihrest =>
    obtain ⟨hone, hothers⟩ := hframed.cons
    obtain ⟨hsiteCall, hsiteNop, -⟩ := hone.1
    exact ⟨haround.at_place (congrArg Site.toRegion hsiteCall),
      haround.at_place (congrArg Site.toRegion hsiteNop), ihrest hothers haround⟩
  | assign _ ihrest =>
    obtain ⟨hone, hothers⟩ := hframed.cons
    exact ⟨haround.at_place hone.entry, ihrest hothers haround⟩
  | decrement _ ihrest =>
    obtain ⟨hone, hothers⟩ := hframed.cons
    exact ⟨haround.at_place hone.entry, ihrest hothers haround⟩

end Obeys

end BotScript
