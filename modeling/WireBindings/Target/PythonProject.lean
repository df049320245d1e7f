import WireBindings.Target.PythonUnit

/-!
# Python project files

The files that go with the modules: the package with the entry point, the support module and the
build file.
-/

namespace WireBindings.Target.Python

def rootProtocol : String := "ChromeDevTools"

def propertyLines (d : Binding.Domain) : List String :=
  ["",
    "    @property",
    "    def " ++ safeName d.name "" ++ "(self) -> " ++ moduleName d.name ++ "." ++ d.name ++ ":",
    "        ..."]

def versionPhrase (version : String) : String :=
  if version.isEmpty then "" else " for protocol version " ++ version

def rootFile (package version : String) (domains : List Binding.Domain) : File where
  path := sourceRoot package ++ "/__init__.py"
  text := render (
    ["# " ++ headerText version,
      "\"\"\"Protocol bindings" ++ versionPhrase version ++ ".\"\"\"",
      "",
      "from __future__ import annotations",
      "",
      "import typing",
      ""] ++
      domains.map (fun d => "from . import " ++ moduleName d.name) ++
      ["",
        "PROTOCOL_VERSION = " ++ markupLiteral version,
        "",
        "",
        "class " ++ rootProtocol ++ "(typing.Protocol):",
        "    \"\"\"Entry point to every protocol domain.\"\"\""] ++
      (if domains.isEmpty then ["", "    pass"] else domains.flatMap propertyLines) ++
      ["",
        "",
        "__all__ = " ++ markupList (rootProtocol :: "PROTOCOL_VERSION" ::
          domains.map fun d => moduleName d.name)])

def supportFile (package : String) : File where
  path := sourceRoot package ++ "/_support.py"
  text := render
    ["# Generated by cdpgen. Do not edit.",
      "\"\"\"Types shared by every domain module.\"\"\"",
      "",
      "from __future__ import annotations",
      "",
      "import dataclasses",
      "import typing",
      "",
      "T = typing.TypeVar(\"T\", contravariant=True)",
      "F = typing.TypeVar(\"F\", bound=typing.Callable[..., typing.Any])",
      "",
      "",
      "class EventHandler(typing.Protocol[T]):",
      "    \"\"\"Receives the payloads of one event.\"\"\"",
      "",
      "    def __call__(self, event: T) -> None:",
      "        ...",
      "",
      "",
      "class EventListener(typing.Protocol):",
      "    \"\"\"Handle of an event subscription.\"\"\"",
      "",
      "    def unsubscribe(self) -> None:",
      "        \"\"\"Stops delivering events to the handler.\"\"\"",
      "        ...",
      "",
      "",
      "def event_name(name: str) -> typing.Callable[[F], F]:",
      "    \"\"\"Records the wire name of the event a subscription method listens to.\"\"\"",
      "    def decorate(method: F) -> F:",
      "        setattr(method, \"__event_name__\", name)",
      "        return method",
      "    return decorate",
      "",
      "",
      "def wire_names(data_class: type) -> typing.Dict[str, str]:",
      "    \"\"\"Maps the attribute names of a generated data class to their wire names.\"\"\"",
      "    return \x7bf.name: f.metadata.get(\"wire\", f.name) " ++
        "for f in dataclasses.fields(data_class)\x7d"]

def projectName (package : String) : String :=
  String.ofList (package.toList.map fun c => if c = '_' ∨ c = '.' then '-' else c)

def buildFile (package version : String) : File where
  path := "pyproject.toml"
  text := render
    ["[build-system]",
      "requires = [\"hatchling\"]",
      "build-backend = \"hatchling.build\"",
      "",
      "[project]",
      "name = \"" ++ projectName package ++ "\"",
      "version = \"0.1.0\"",
      "description = \"Protocol bindings" ++ versionPhrase version ++ "\"",
      "requires-python = \">=3.10\"",
      "",
      "[tool.hatch.build.targets.wheel]",
      "packages = [\"src/" ++ (dottedParts package).headD "" ++ "\"]"]

def supportFiles (package version : String) (p : Plan.Protocol) : List File :=
  [rootFile package version p.protocol.domains, supportFile package, buildFile package version]

end WireBindings.Target.Python
