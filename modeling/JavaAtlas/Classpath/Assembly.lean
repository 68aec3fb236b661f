import JavaAtlas.Build.Modules
import JavaAtlas.Classpath.Dump
import JavaAtlas.Classpath.Entry
import JavaAtlas.Command

/-!
The class path of a source tree, found without building it: the platform, the source directories of
each module, the libraries that the build tool names, and what was compiled before. What cannot be
found is left out.
-/

namespace JavaAtlas

namespace ClasspathEntry

/-- Whether two entries say the same, where paths are compared by their components. -/
def same : ClasspathEntry → ClasspathEntry → Bool
  | container a, container b =>
    a.id == b.id && a.home.map Path.components == b.home.map Path.components &&
      a.version == b.version
  | source a, source b =>
    Path.same a.path b.path && Path.same a.relative b.relative && a.module == b.module
  | library a, library b => Path.same a b
  | _, _ => false

/-- Adds an entry at the end unless the same is there already. -/
def insert (entries : List ClasspathEntry) (e : ClasspathEntry) : List ClasspathEntry :=
  if entries.any (·.same e) then entries else entries ++ [e]

end ClasspathEntry

namespace Classpath

/-- The layouts of source directories. The first of which a directory exists counts, with all its
directories that exist. The last stands for a tree without any convention. -/
def layouts : List (List String) :=
  [["src/main/java", "src/test/java"], ["src/java", "test/java"], ["java"], ["src"]]

/-- Where a build tool puts what it compiles. -/
def outputDirs : BuildSystem → List String
  | .maven => ["target/classes", "target/test-classes"]
  | .gradle => ["build/classes/java/main", "build/classes/java/test", "build/resources/main"]
  | .unknown => []

structure Dependencies where
  libraries : List String
  degraded : Bool
  deriving Repr, DecidableEq

/-- The build tool did not say what the tree depends on. -/
def Dependencies.failed : Dependencies := ⟨[], true⟩

structure Assembly where
  kind : BuildSystem
  entries : List ClasspathEntry
  sourceRoots : List SourceRoot
  degraded : Bool
  deriving Repr, DecidableEq

def Assembly.libraryCount (a : Assembly) : Nat := a.entries.countP (·.isLibrary)

variable (fs : FileTree)

/-- The directory of a module of the tree at `root`. -/
def moduleDir (root module : String) : String :=
  if module.isEmpty then root else Path.join root module

def existingDirs (dir : String) (names : List String) : List String :=
  (names.map (Path.join dir)).filter fs.isDir

/-- The source directories of a module. -/
def moduleSourceRoots (root module : String) : List SourceRoot :=
  let found := (layouts.map (existingDirs fs (moduleDir root module))).find? (!·.isEmpty)
  (found.getD []).map fun path => ⟨path, (Path.stripBase? root path).getD path, module⟩

/-- The source directories of all modules. -/
def sourceRoots (path : String) : List SourceRoot :=
  (Build.modules fs path).flatMap (moduleSourceRoots fs path)

/-- The directories of compiled classes of all modules. -/
def compiledDirs (path : String) (kind : BuildSystem) : List String :=
  (Build.modules fs path).flatMap fun module =>
    existingDirs fs (moduleDir path module) (outputDirs kind)

/-- Where the build tool writes its list. -/
def dumpPath : String := "/tmp/stratum-classpath-000000.txt"

/-- How class paths are assembled. -/
structure Assembler where
  launch : Launcher
  mavenCommand : String
  timeoutMs : Nat
  container : RuntimeContainer
  cancelled : Bool

namespace Assembler

variable (asm : Assembler)

/-- The Maven of the tree itself, if it brings one. -/
def executable (path : String) : String :=
  let wrapper := Path.join path "mvnw"
  if fs.isFile wrapper then wrapper else asm.mavenCommand

/-- The command that appends the libraries of each module to the list. -/
def listCommand (path : String) : Command where
  program := asm.executable fs path
  args := ["-q", "-B", "dependency:build-classpath", "-Dmdep.outputFile=" ++ dumpPath,
    "-Dmdep.appendOutput=true", "-Dmdep.includeScope=test"]
  directory := some path

/-- The dependencies in the list that a run of the build tool has left. -/
def readDependencies (after : FileTree) : Except RunError CommandOutput → Dependencies
  | .error _ => .failed
  | .ok output =>
    if !output.success then .failed
    else match after.readText dumpPath with
      | .ok text => ⟨parseDump text, false⟩
      | .error _ => .failed

/-- Asks Maven for the libraries. Also gives the files after that, without the list. -/
def mavenDependencies (path : String) : Dependencies × FileTree :=
  match fs.write dumpPath [] with
  | .error _ => (.failed, fs)
  | .ok started =>
    let (outcome, after) := (asm.listCommand fs path).run asm.launch started asm.timeoutMs
      asm.cancelled
    (readDependencies after outcome, (after.removeFile dumpPath).toOption.getD after)

/-- What a tree depends on, and the files after asking. -/
def dependencies (path : String) : BuildSystem → Dependencies × FileTree
  | .maven => asm.mavenDependencies fs path
  | .gradle => (⟨compiledDirs fs path .gradle, false⟩, fs)
  | .unknown => (⟨[], false⟩, fs)

/-- The class path of a tree, and the files after finding it. -/
def assemble (path : String) : Assembly × FileTree :=
  let kind := Build.detect fs path
  let roots := sourceRoots fs path
  let modules := Build.modules fs path
  let (found, after) := asm.dependencies fs path kind
  let compiled := modules.flatMap fun module =>
    existingDirs after (moduleDir path module) (outputDirs kind)
  let entries := .container asm.container :: roots.map .source ++
    (found.libraries.filter after.pathExists).map .library ++ compiled.map .library
  ({ kind
     entries := entries.foldl ClasspathEntry.insert []
     sourceRoots := roots
     degraded := found.degraded }, after)

end Assembler

end Classpath

end JavaAtlas
