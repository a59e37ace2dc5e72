import Mathlib.Init

/-! The texts the fake controller answers with. -/
namespace Robocol
namespace FakeRc

def OPMODES : String :=
  "[\n" ++
  "    \x7b\"name\":\"$Stop$Robot$\",\"flavor\":\"SYSTEM\",\"group\":\"$$$$$$$\"," ++
  "\"source\":\"BUILTIN\",\"description\":\"\",\"systemOpModeBaseDisplayName\":\"Stop " ++
  "Robot\"\x7d,\n" ++
  "    \x7b\"name\":\"$Configure$Robot$\",\"flavor\":\"SYSTEM\",\"group\":\"$$$$$$$\"," ++
  "\"source\":\"BUILTIN\",\"description\":\"\",\"systemOpModeBaseDisplayName\":\"Configure " ++
  "Robot\"\x7d,\n" ++
  "    \x7b\"name\":\"Test Hardware (Built-in)\",\"flavor\":\"UTILITY\"," ++
  "\"group\":\"$$$$$$$\",\"source\":\"BUILTIN\",\"description\":\"Exercise " ++
  "each configured motor and servo\",\"systemOpModeBaseDisplayName\":\"Test " ++
  "Hardware\"\x7d,\n" ++
  "    \x7b\"name\":\"Test Gamepad (Built-in)\",\"flavor\":\"UTILITY\"," ++
  "\"group\":\"$$$$$$$\",\"source\":\"BUILTIN\",\"description\":\"Show " ++
  "live gamepad input\",\"systemOpModeBaseDisplayName\":\"Test Gamepad\"\x7d,\n" ++
  "    \x7b\"name\":\"Duo (TeleOp)\",\"flavor\":\"TELEOP\",\"group\":\"drive\"," ++
  "\"source\":\"ANDROID_STUDIO\",\"description\":\"\"\x7d,\n" ++
  "    \x7b\"name\":\"Solo (TeleOp)\",\"flavor\":\"TELEOP\",\"group\":\"drive\"," ++
  "\"source\":\"ANDROID_STUDIO\",\"description\":\"\"\x7d,\n" ++
  "    \x7b\"name\":\"Auto: Sand Run\",\"flavor\":\"AUTONOMOUS\",\"group\":\"auto\"," ++
  "\"source\":\"ANDROID_STUDIO\",\"description\":\"\"\x7d,\n" ++
  "    \x7b\"name\":\"Crash Test\",\"flavor\":\"TELEOP\",\"group\":\"$$$$$$$\"," ++
  "\"source\":\"ANDROID_STUDIO\",\"description\":\"\"\x7d\n" ++
  "]"

def CRASH_STACKTRACE : String :=
  "java.lang.NullPointerException: Attempt to invoke virtual method 'void " ++
  "com.qualcomm.robotcore.hardware.DcMotor.setPower(double)' on a null " ++
  "object reference\n" ++
  "\tat org.firstinspires.ftc.teamcode.CrashTest.loop(CrashTest.java:42)\n" ++
  "\tat com.qualcomm.robotcore.eventloop.opmode.OpModeManagerImpl.runActiveOpMode(OpModeManagerImpl.jav" ++
  "a:475)\n" ++
  "\tat com.qualcomm.robotcore.eventloop.opmode.FtcEventLoop.loop(FtcEventLoop.java:180)"

/-- The device XML of a configuration that was not saved. -/
def FAKE_CONFIG_XML : String :=
  "<?xml version='1.0' encoding='UTF-8' standalone='yes' ?>\n" ++
  "<Robot type=\"FirstInspires-FTC\">\n" ++
  "    <LynxUsbDevice name=\"Control Hub Portal\" serialNumber=\"(embedded)\" " ++
  "parentModuleAddress=\"173\">\n" ++
  "        <LynxModule name=\"Control Hub\" port=\"173\">\n" ++
  "            <goBILDA5202SeriesMotor name=\"front_right_motor\" port=\"0\" " ++
  "/>\n" ++
  "            <goBILDA5202SeriesMotor name=\"front_left_motor\" port=\"1\" " ++
  "/>\n" ++
  "            <goBILDA5202SeriesMotor name=\"back_right_motor\" port=\"2\" " ++
  "/>\n" ++
  "            <goBILDA5202SeriesMotor name=\"back_left_motor\" port=\"3\" " ++
  "/>\n" ++
  "            <Servo name=\"sortServo\" port=\"5\" />\n" ++
  "            <ControlHubImuBHI260AP name=\"imu\" port=\"0\" bus=\"0\" " ++
  "/>\n" ++
  "            <REV_VL53L0X_RANGE_SENSOR name=\"intakeDistance\" port=\"0\" " ++
  "bus=\"2\" />\n" ++
  "        </LynxModule>\n" ++
  "        <LynxModule name=\"Expansion Hub 2\" port=\"2\">\n" ++
  "            <goBILDA5202SeriesMotor name=\"intake\" port=\"0\" />\n" ++
  "            <Servo name=\"kickoutServo\" port=\"2\" />\n" ++
  "            <SparkFunOTOS name=\"otos\" port=\"0\" bus=\"0\" />\n" ++
  "        </LynxModule>\n" ++
  "    </LynxUsbDevice>\n" ++
  "    <Webcam name=\"Webcam 1\" serialNumber=\"REPLACE_WITH_USB_SERIAL\" " ++
  "/>\n" ++
  "</Robot>"

/-- The answer to a scan: the attached USB devices by serial number. -/
def SCAN_RESP : String :=
  "\x7b\"map\":[\x7b\"key\":\"(embedded)\",\"value\":\"LYNX_USB_DEVICE\"\x7d," ++
  "\x7b\"key\":\"3E425A6F\",\"value\":\"WEBCAM\"\x7d,\x7b\"key\":\"EthernetOverUsb:eth0:172.29.0.24\"," ++
  "\"value\":\"ETHERNET_DEVICE\"\x7d]\x7d"

def USER_DEVICE_TYPES : String :=
  "[\n" ++
  "    \x7b\"name\":\"goBILDA 5202/3/4 series\",\"flavor\":\"MOTOR\"," ++
  "\"xmlTag\":\"goBILDA5202SeriesMotor\",\"builtIn\":true,\"isDeprecated\":false," ++
  "\"classSource\":\"APK\"\x7d,\n" ++
  "    \x7b\"name\":\"REV Core Hex Motor\",\"flavor\":\"MOTOR\",\"xmlTag\":\"RevRoboticsCoreHexMotor\"," ++
  "\"builtIn\":true,\"isDeprecated\":false,\"classSource\":\"APK\"\x7d,\n" ++
  "    \x7b\"name\":\"REV HD Hex Motor 20:1\",\"flavor\":\"MOTOR\",\"xmlTag\":\"RevRobotics20HDHexMotor" ++
  "\",\"builtIn\":true,\"isDeprecated\":false,\"classSource\":\"APK\"\x7d,\n" ++
  "    \x7b\"name\":\"Servo\",\"flavor\":\"SERVO\",\"xmlTag\":\"Servo\"," ++
  "\"builtIn\":true,\"isDeprecated\":false,\"classSource\":\"APK\"\x7d,\n" ++
  "    \x7b\"name\":\"Continuous Rotation Servo\",\"flavor\":\"SERVO\"," ++
  "\"xmlTag\":\"ContinuousRotationServo\",\"builtIn\":true,\"isDeprecated\":false," ++
  "\"classSource\":\"APK\"\x7d,\n" ++
  "    \x7b\"name\":\"Control Hub IMU (BHI260AP)\",\"flavor\":\"I2C\"," ++
  "\"xmlTag\":\"ControlHubImuBHI260AP\",\"builtIn\":true,\"isDeprecated\":false," ++
  "\"classSource\":\"APK\"\x7d,\n" ++
  "    \x7b\"name\":\"REV 2M Distance Sensor\",\"flavor\":\"I2C\",\"xmlTag\":\"REV_VL53L0X_RANGE_SENSOR" ++
  "\",\"builtIn\":true,\"isDeprecated\":false,\"classSource\":\"APK\"\x7d,\n" ++
  "    \x7b\"name\":\"SparkFun OTOS\",\"flavor\":\"I2C\",\"xmlTag\":\"SparkFunOTOS\"," ++
  "\"builtIn\":false,\"isDeprecated\":false,\"classSource\":\"APK\"\x7d,\n" ++
  "    \x7b\"xmlTag\":\"LynxColorSensor\",\"name\":\"REV Color/Range " ++
  "Sensor\",\"flavor\":\"BUILT_IN\"\x7d,\n" ++
  "    \x7b\"xmlTag\":\"Webcam\",\"name\":\"Webcam\",\"flavor\":\"BUILT_IN\"\x7d\n" ++
  "]"

end FakeRc
end Robocol
