import WireBindings.Target.JavaUnit

/-!
# Java project files

The files that go with the interfaces: the entry point with a getter for each domain, the support
types and the build file.
-/

namespace WireBindings.Target.Java

def rootInterface : String := "ChromeDevTools"

def jdkVersion : String := "17"
def jacksonVersion : String := "2.18.2"
def compilerPluginVersion : String := "3.13.0"

def getterLines (d : Binding.Domain) : List String :=
  [""] ++ indent 4 (docComment d.advisory.description []) ++
    onlyIf d.advisory.deprecated ["    @Deprecated"] ++
    ["    " ++ d.name ++ " get" ++ Identifier.pascal d.name ++ "();"]

def rootFile (package version : String) (domains : List Binding.Domain) : File where
  path := sourceRoot package ++ "/" ++ rootInterface ++ ".java"
  text := render (
    ["// " ++ headerText version, "package " ++ package ++ ";", "",
      "/** Entry point to every protocol domain. */",
      "public interface " ++ rootInterface ++ " \x7b"] ++
      domains.flatMap getterLines ++ ["\x7d"])

def annotationImports : List String :=
  ["",
    "import java.lang.annotation.ElementType;",
    "import java.lang.annotation.Retention;",
    "import java.lang.annotation.RetentionPolicy;",
    "import java.lang.annotation.Target;"]

def annotationWithValue (comment target name : String) : List String :=
  annotationImports ++
    ["",
      "/** " ++ comment ++ " */",
      "@Retention(RetentionPolicy.RUNTIME)",
      "@Target(ElementType." ++ target ++ ")",
      "public @interface " ++ name ++ " \x7b",
      "    String value();",
      "\x7d"]

def annotationWithoutValue (comment name : String) (targets : List String) : List String :=
  annotationImports ++
    ["",
      "/** " ++ comment ++ " */",
      "@Retention(RetentionPolicy.RUNTIME)",
      "@Target(\x7b" ++ ", ".intercalate (targets.map ("ElementType." ++ ·)) ++ "\x7d)",
      "public @interface " ++ name ++ " \x7b",
      "\x7d"]

def supportDeclarations : List (String × List String) :=
  [("ParamName", annotationWithValue "Wire name of a command parameter." "PARAMETER" "ParamName"),
    ("EventName",
      annotationWithValue "Wire name of the event a subscription method listens to." "METHOD"
        "EventName"),
    ("Optional",
      annotationWithoutValue "Marks a parameter or property that may be absent." "Optional"
        ["PARAMETER", "FIELD"]),
    ("Experimental",
      annotationWithoutValue "Marks a domain, type, member or parameter as experimental."
        "Experimental" ["TYPE", "METHOD", "PARAMETER", "FIELD"]),
    ("EventHandler",
      ["",
        "/** Receives the payloads of one event. */",
        "@FunctionalInterface",
        "public interface EventHandler<T> \x7b",
        "    void onEvent(T event);",
        "\x7d"]),
    ("EventListener",
      ["",
        "/** Handle of an event subscription. */",
        "public interface EventListener \x7b",
        "    /** Stops delivering events to the handler. */",
        "    void unsubscribe();",
        "",
        "    /** Alias of \x7b@link #unsubscribe()\x7d. */",
        "    default void off() \x7b",
        "        unsubscribe();",
        "    \x7d",
        "\x7d"])]

def supportFile (package name : String) (declaration : List String) : File where
  path := sourceRoot package ++ "/" ++ supportPackage ++ "/" ++ name ++ ".java"
  text := render (
    ["// Generated by cdpgen. Do not edit.",
      "package " ++ package ++ "." ++ supportPackage ++ ";"] ++ declaration)

/-- The group and the artifact of a package: the part before the last dot and the part after it. A
package of one part is both. -/
def coordinates (package : String) : String × String :=
  let parts := dottedParts package
  let artifact := parts.getLastD ""
  (if parts.length ≤ 1 then artifact else ".".intercalate parts.dropLast, artifact)

def buildFile (o : Options) : File where
  path := "pom.xml"
  text :=
    let (group, artifact) := coordinates o.package
    render (
      ["<?xml version=\"1.0\" encoding=\"UTF-8\"?>",
        "<project xmlns=\"http://maven.apache.org/POM/4.0.0\"",
        "    xmlns:xsi=\"http://www.w3.org/2001/XMLSchema-instance\"",
        "    xsi:schemaLocation=\"http://maven.apache.org/POM/4.0.0 " ++
          "http://maven.apache.org/xsd/maven-4.0.0.xsd\">",
        "    <modelVersion>4.0.0</modelVersion>",
        "    <groupId>" ++ group ++ "</groupId>",
        "    <artifactId>" ++ artifact ++ "</artifactId>",
        "    <version>1.0-SNAPSHOT</version>",
        "    <properties>",
        "        <maven.compiler.source>" ++ jdkVersion ++ "</maven.compiler.source>",
        "        <maven.compiler.target>" ++ jdkVersion ++ "</maven.compiler.target>",
        "        <project.build.sourceEncoding>UTF-8</project.build.sourceEncoding>",
        "    </properties>"] ++
        onlyIf o.jackson
          ["    <dependencies>",
            "        <dependency>",
            "            <groupId>com.fasterxml.jackson.core</groupId>",
            "            <artifactId>jackson-annotations</artifactId>",
            "            <version>" ++ jacksonVersion ++ "</version>",
            "        </dependency>",
            "    </dependencies>"] ++
        ["    <build>",
          "        <plugins>",
          "            <plugin>",
          "                <groupId>org.apache.maven.plugins</groupId>",
          "                <artifactId>maven-compiler-plugin</artifactId>",
          "                <version>" ++ compilerPluginVersion ++ "</version>",
          "            </plugin>",
          "        </plugins>",
          "    </build>",
          "</project>"])

def supportFiles (o : Options) (version : String) (p : Plan.Protocol) : List File :=
  rootFile o.package version p.protocol.domains ::
    supportDeclarations.map (fun (name, declaration) => supportFile o.package name declaration) ++
    [buildFile o]

end WireBindings.Target.Java
